import OpenBambu.Print.Job
import OpenBambu.Ftps.Alignment

/-!
# The stages of the print job

What `run_local_print_job` reports, against the order of its stages: Create, Upload with percentages that
do not fall, Sending, Finished, and an error where it fails. An emmc upload that fails breaks it.
-/

namespace OpenBambu.Print

open OpenBambu.Foundation

/-! ## The law -/

def isError (r : Report) : Bool := r.stage = .error

/-- Uploads whose percentages do not fall. -/
structure RisingUploads (reports : List Report) : Prop where
  stage : ∀ r ∈ reports, r.stage = .upload
  rise : (reports.map Report.code).Pairwise (· ≤ ·)

/-- The reports follow the stages as far as the run gets, Finished means success, and a failure that is no
cancellation has one error with its code. -/
structure StageLaw (run : JobRun) : Prop where
  order : ∃ uploads, RisingUploads uploads ∧
    run.reports.filter (fun r => !isError r) <+: created :: (uploads ++ [sending, finished])
  finished : (∃ r ∈ run.reports, r.stage = .finished) ↔ run.code = some 0
  failed : ∀ code, run.code = some code → code ≠ 0 → code ≠ errCanceled →
    ∃ text, run.reports.filter isError = [failed code text]

/-- The reports of a run, with the errors behind the others. -/
structure Apart (run : JobRun) (stages errors : List Report) : Prop where
  reports : run.reports = stages ++ errors
  stages : ∀ r ∈ stages, isError r = false
  errors : ∀ r ∈ errors, isError r = true

theorem Apart.filters {run : JobRun} {stages errors : List Report} (h : Apart run stages errors) :
    run.reports.filter (fun r => !isError r) = stages ∧ run.reports.filter isError = errors := by
  rw [h.reports, List.filter_append, List.filter_append]
  constructor
  · rw [List.filter_eq_self.mpr (by simpa using h.stages),
      List.filter_eq_nil_iff.mpr (by simpa using h.errors), List.append_nil]
  · rw [List.filter_eq_nil_iff.mpr (by simpa using h.stages), List.filter_eq_self.mpr h.errors,
      List.nil_append]

/-- A list of uploads and what is behind them follow the stages exactly if the percentages rise. -/
theorem stages_prefix_iff {uploads behind : List Report} (hup : ∀ r ∈ uploads, r.stage = .upload)
    (hbehind : behind <+: [sending, finished]) :
    (∃ others, RisingUploads others ∧
        created :: (uploads ++ behind) <+: created :: (others ++ [sending, finished])) ↔
      (uploads.map Report.code).Pairwise (· ≤ ·) := by
  constructor
  · rintro ⟨others, hothers, hpre⟩
    have hfilter := ((List.cons_prefix_cons.mp hpre).2).filter fun r => decide (r.stage = .upload)
    have hnone {rs : List Report} (hrs : rs <+: [sending, finished]) :
        rs.filter (fun r => decide (r.stage = .upload)) = [] :=
      List.filter_eq_nil_iff.mpr fun r hr => by
        rcases List.mem_cons.mp (hrs.subset hr) with rfl | hr
        · decide
        · rw [List.mem_singleton.mp hr]
          decide
    have hself : uploads.filter (fun r => decide (r.stage = .upload)) = uploads :=
      List.filter_eq_self.mpr (by simpa using hup)
    have hothersSelf : others.filter (fun r => decide (r.stage = .upload)) = others :=
      List.filter_eq_self.mpr (by simpa using hothers.stage)
    rw [List.filter_append, List.filter_append, hnone hbehind, hnone (List.prefix_refl _), hself,
      hothersSelf, List.append_nil, List.append_nil] at hfilter
    exact hothers.rise.sublist (hfilter.map _).sublist
  · intro hrise
    exact ⟨uploads, ⟨hup, hrise⟩,
      List.cons_prefix_cons.mpr ⟨rfl, (List.prefix_append_right_inj _).mpr hbehind⟩⟩

section Runs

variable {run : JobRun} (uploads behind errors : List Report)

/-- The law of a run that has come to `uploads` and to what is behind them. -/
theorem Apart.law_iff (h : Apart run (created :: (uploads ++ behind)) errors)
    (hup : ∀ r ∈ uploads, r.stage = .upload) (hbehind : behind <+: [sending, finished])
    (hfinished : finished ∈ behind ↔ run.code = some 0) :
    StageLaw run ↔ (uploads.map Report.code).Pairwise (· ≤ ·) ∧
      ∀ code, run.code = some code → code ≠ 0 → code ≠ errCanceled →
        ∃ text, errors = [failed code text] := by
  obtain ⟨hstages, herrors⟩ := h.filters
  have hreached : (∃ r ∈ run.reports, r.stage = .finished) ↔ finished ∈ behind := by
    rw [h.reports]
    constructor
    · rintro ⟨r, hr, hstage⟩
      rcases List.mem_append.mp hr with hr | hr
      · rcases List.mem_cons.mp hr with rfl | hr
        · exact absurd hstage (by decide)
        rcases List.mem_append.mp hr with hr | hr
        · rw [hup r hr] at hstage
          exact absurd hstage (by decide)
        · rcases List.mem_cons.mp (hbehind.subset hr) with rfl | hr'
          · exact absurd hstage (by decide)
          · rwa [List.mem_singleton.mp hr'] at hr
      · have herror := of_decide_eq_true (h.errors r hr)
        rw [herror] at hstage
        exact absurd hstage (by decide)
    · intro hmem
      exact ⟨finished, List.mem_append_left _ (List.mem_cons_of_mem _ (List.mem_append_right _ hmem)), rfl⟩
  constructor
  · intro hlaw
    have horder := hlaw.order
    have hfailed := hlaw.failed
    rw [hstages, stages_prefix_iff hup hbehind] at horder
    rw [herrors] at hfailed
    exact ⟨horder, hfailed⟩
  · rintro ⟨hrise, hfailed⟩
    refine ⟨?_, hreached.trans hfinished, ?_⟩
    · rwa [hstages, stages_prefix_iff hup hbehind]
    · rwa [herrors]

end Runs

/-! ## The part behind the upload -/

section Job

variable (e : Setting) (p : PrintParams)

theorem startPrint_law {uploads : List Report} (hup : ∀ r ∈ uploads, r.stage = .upload)
    (uploaded : Uploaded) (opts : ProjectFileOpts) :
    StageLaw (startPrint e p (created :: uploads) uploaded opts) ↔
      (uploads.map Report.code).Pairwise (· ≤ ·) := by
  have hstages {behind : List Report} (hbehind : behind <+: [sending, finished]) :
      ∀ r ∈ created :: (uploads ++ behind), isError r = false := by
    intro r hr
    rcases List.mem_cons.mp hr with rfl | hr
    · rfl
    rcases List.mem_append.mp hr with hr | hr
    · rw [isError, hup r hr]
      rfl
    · rcases List.mem_cons.mp (hbehind.subset hr) with rfl | hr
      · rfl
      · rw [List.mem_singleton.mp hr]
        rfl
  unfold startPrint
  simp only
  split_ifs with hcancelled hpublish
  · rw [Apart.law_iff uploads [] [failed errCanceled (ascii "cancelled")]
      ⟨by simp, hstages List.nil_prefix, by simp [isError, failed]⟩ hup List.nil_prefix
      (by simp [errCanceled])]
    refine and_iff_left fun code hcode _ hne => ?_
    exact absurd (Option.some.inj hcode).symm hne
  · rw [Apart.law_iff uploads [sending] [failed errPrintLpPublishMsgFailed (ascii "MQTT publish failed")]
      ⟨by simp, hstages (by simp), by simp [isError, failed]⟩ hup (by simp)
      (by simp [errPrintLpPublishMsgFailed, sending, finished])]
    refine and_iff_left fun code hcode _ _ => ?_
    exact ⟨_, by rw [Option.some.inj hcode]⟩
  · rw [Apart.law_iff uploads [sending, finished] []
      ⟨by simp, hstages (List.prefix_refl _), by simp⟩ hup (List.prefix_refl _) (by simp)]
    refine and_iff_left fun code hcode hne _ => ?_
    exact absurd (Option.some.inj hcode).symm hne

/-! ## The upload over FTPS -/

theorem ftpReports_rising {calls : List Nat × List Nat} (hrise : (calls.1 ++ calls.2).Pairwise (· ≤ ·))
    (hle : ∀ sent ∈ calls.1 ++ calls.2, sent ≤ e.file.size) (hsize : e.file.size ≤ 1024 * 1024 * 1024) :
    RisingUploads (ftpReports e calls) := by
  have hcode (sent : Nat) (h : sent ≤ e.file.size) :
      (ftpReport e.file.size sent).code = (sent * 100 / e.file.size : Nat) :=
    ftpPercent_eq h (by omega)
  rw [ftpReports, ← List.map_append]
  constructor
  · intro r hr
    obtain ⟨sent, -, rfl⟩ := List.mem_map.mp hr
    rfl
  · rw [List.map_map, List.pairwise_map]
    have hsub : (calls.1.filter (fun sent => !e.cancelled (.sent sent)) ++
        calls.2.filter fun _ => !e.cancelled .confirmed).Sublist (calls.1 ++ calls.2) :=
      List.filter_sublist.append List.filter_sublist
    refine (hrise.sublist hsub).imp_of_mem fun ha hb hab => ?_
    rw [Function.comp_apply, Function.comp_apply, hcode _ (hle _ (hsub.subset ha)),
      hcode _ (hle _ (hsub.subset hb))]
    exact Int.ofNat_le.mpr (Nat.div_le_div_right (Nat.mul_le_mul_right _ hab))

theorem storReports_rising (w : Ftps.World) (path : Bytes) (hsize : e.file.size ≤ 1024 * 1024 * 1024) :
    RisingUploads (ftpReports e (storCalls (fun sent _ => !e.cancelled (.sent sent)) w e.ftp.stor p.filename
      (e.storReads.map fun r => Ftps.LocalFile.mk e.file.size r.pieces) path)) := by
  have hfile : ∀ x ∈ e.storReads.map (fun r => Ftps.LocalFile.mk e.file.size r.pieces),
      x.reads.flatten.length ≤ e.file.size := by
    intro x hx
    obtain ⟨r, -, rfl⟩ := Option.mem_map.mp hx
    exact r.ordered.length_le
  obtain ⟨hrise, hle⟩ := storCalls_rise (fun sent _ => !e.cancelled (.sent sent)) w e.ftp.stor p.filename
    path hfile (by omega)
  exact ftpReports_rising e hrise hle hsize

/-- It reports uploads with rising percentages, and an error with its code behind them if it fails. -/
theorem ftpUpload_reports (remotePath : Bytes) (errCode : Int) (herr : errCode ≠ 0) :
    ∃ uploads, RisingUploads uploads ∧
      ((ftpUpload e p remotePath errCode).code = 0 ∧ (ftpUpload e p remotePath errCode).reports = uploads ∨
        (ftpUpload e p remotePath errCode).code ≠ 0 ∧ ∃ text, (ftpUpload e p remotePath errCode).reports =
          uploads ++ [failed (ftpUpload e p remotePath errCode).code text]) := by
  have hnone : RisingUploads [] := ⟨nofun, List.Pairwise.nil⟩
  have hcanceled : errCanceled ≠ 0 := by decide
  unfold ftpUpload
  simp only
  split_ifs with hstat hover hconnect herror hcancelled
  · exact ⟨[], hnone, Or.inr ⟨by decide, _, rfl⟩⟩
  · exact ⟨[], hnone, Or.inr ⟨by decide, _, rfl⟩⟩
  · exact ⟨[], hnone, Or.inr ⟨herr, _, rfl⟩⟩
  all_goals
    have hrising (w : Ftps.World) (path : Bytes) :=
      storReports_rising e p w path (Nat.le_of_not_lt hover)
  · exact ⟨_, hrising _ _, Or.inr ⟨hcanceled, _, rfl⟩⟩
  · exact ⟨_, hrising _ _, Or.inr ⟨herr, _, rfl⟩⟩
  · exact ⟨_, hrising _ _, Or.inl ⟨rfl, rfl⟩⟩

/-! ## The upload to the emmc -/

theorem chunkReports_stage (pcts : List Int) : ∀ r ∈ pcts.map chunkReport, r.stage = .upload := by
  intro r hr
  obtain ⟨pct, -, rfl⟩ := List.mem_map.mp hr
  rfl

theorem chunkReports_codes (pcts : List Int) : (pcts.map chunkReport).map Report.code = pcts := by
  rw [List.map_map]
  exact List.map_id pcts

/-- The percentages of the chunks rise exactly if the reported ones do, and these may be followed by 100. -/
theorem changes_rise_iff {pcts : List Int} (hbounds : ∀ x ∈ pcts, 0 ≤ x ∧ x ≤ 100) :
    ((changes (-1) pcts).Pairwise (· ≤ ·) ↔ pcts.Pairwise (· ≤ ·)) ∧
      ((changes (-1) pcts ++ [100]).Pairwise (· ≤ ·) ↔ pcts.Pairwise (· ≤ ·)) := by
  have hfront {l : List Int} (hl : l ⊆ pcts) :
      (-1 :: l).IsChain (· ≤ ·) ↔ l.Pairwise (· ≤ ·) := by
    rw [List.isChain_iff_pairwise, List.pairwise_cons]
    refine and_iff_right fun x hx => ?_
    have := (hbounds x (hl hx)).1
    omega
  have hsubset := changes_subset (-1) pcts
  have hchanges : (changes (-1) pcts).Pairwise (· ≤ ·) ↔ pcts.Pairwise (· ≤ ·) := by
    rw [← hfront hsubset, isChain_changes, hfront (List.Subset.refl _)]
  refine ⟨hchanges, ?_⟩
  rw [List.pairwise_append, hchanges]
  refine ⟨fun h => h.1, fun h => ⟨h, List.pairwise_singleton _ _, fun x hx y hy => ?_⟩⟩
  rw [List.mem_singleton.mp hy]
  exact (hbounds x (hsubset hx)).2

/-- The percentages in the order of the chunks. -/
def chunkPercents (conn : UInt32 × Tunnel.Session) : List Int :=
  (emmcEnds e p (pickRemoteName p) conn).map (chunkPercent e.file.size)

theorem emmcEnds_rise (conn : UInt32 × Tunnel.Session) :
    (emmcEnds e p (pickRemoteName p) conn).Pairwise (· ≤ ·) ∧
      ∀ x ∈ emmcEnds e p (pickRemoteName p) conn, x ≤ e.file.size := by
  have hsize : ∀ f ∈ opened e, f.size = e.file.size := by
    intro f hf
    rw [opened] at hf
    split_ifs at hf
    · rw [Option.some.inj hf]
    · cases hf
  obtain ⟨hchain, hle⟩ := uploadEnds_rise e.md5 conn.1 (fun turn => e.cancelled (.chunk turn))
    (emmcRequest p (pickRemoteName p)) (opened e) conn.2 hsize
  exact ⟨List.isChain_iff_pairwise.mp hchain, hle⟩

theorem chunkPercents_bounds (conn : UInt32 × Tunnel.Session) :
    ∀ x ∈ chunkPercents e p conn, 0 ≤ x ∧ x ≤ 100 := by
  intro x hx
  obtain ⟨offset, hoffset, rfl⟩ := List.mem_map.mp hx
  exact chunkPercent_bounds ((emmcEnds_rise e p conn).2 offset hoffset)

/-- The 64 bits of an offset times 100 do not start over far enough for the percentage of a later chunk to
fall. -/
def PercentsRise (conn : UInt32 × Tunnel.Session) : Prop :=
  (emmcEnds e p (pickRemoteName p) conn).Pairwise fun a b =>
    a * 100 % 2 ^ 64 / e.file.size ≤ b * 100 % 2 ^ 64 / e.file.size

theorem chunkPercents_rise_iff (conn : UInt32 × Tunnel.Session) :
    (chunkPercents e p conn).Pairwise (· ≤ ·) ↔ PercentsRise e p conn := by
  have hle := (emmcEnds_rise e p conn).2
  rw [chunkPercents, List.pairwise_map]
  refine List.Pairwise.iff_of_mem fun ha hb => ?_
  rw [(chunkPercent_eq (hle _ ha)).1, (chunkPercent_eq (hle _ hb)).1]
  exact Int.ofNat_le

/-- They fall in files only whose size times 100 has more than 64 bits. -/
theorem percentsRise_of_size (conn : UInt32 × Tunnel.Session) (hsize : e.file.size * 100 < 2 ^ 64) :
    PercentsRise e p conn := by
  obtain ⟨hrise, hle⟩ := emmcEnds_rise e p conn
  exact hrise.imp_of_mem fun _ hb hab => hundredths_mono hab (hle _ hb) hsize

/-- The upload to the emmc gets a connection, fails at most because it is cancelled, and the percentages of
its chunks do not fall. -/
def EmmcOrderly : Prop :=
  ∃ conn, e.tunnel = some conn ∧ PercentsRise e p conn ∧
    ∀ out s, emmcOutcome e p (pickRemoteName p) conn = .ok (out, s) →
      out.ok = true ∨ out.error = some .cancelled

/-- The run that goes to the emmc. -/
def emmcJob : JobRun :=
  let remoteName := pickRemoteName p
  let up := uploadFile e p remoteName errPrintLpUploadFtpFailed
  if up.2 ≠ some 0 then
    { reports := created :: up.1, code := up.2, uploaded := some (.emmc remoteName) }
  else
    startPrint e p (created :: up.1) (.emmc remoteName)
      (projectFileOpts e p remoteName (buildBrtcEmmcUrl remoteName))

theorem emmcJob_failed {pcts : List Int} {code : Option Int} (hcode : code ≠ some 0)
    (hup : uploadFile e p (pickRemoteName p) errPrintLpUploadFtpFailed = (pcts.map chunkReport, code)) :
    StageLaw (emmcJob e p) ↔ pcts.Pairwise (· ≤ ·) ∧ ∀ c, code = some c → c = errCanceled := by
  have hstages : ∀ r ∈ created :: (pcts.map chunkReport ++ []), isError r = false := by
    intro r hr
    rw [List.append_nil] at hr
    rcases List.mem_cons.mp hr with rfl | hr
    · rfl
    · rw [isError, chunkReports_stage pcts r hr]
      rfl
  rw [emmcJob]
  simp only [hup]
  rw [if_pos hcode, Apart.law_iff (pcts.map chunkReport) [] [] ⟨by simp, hstages, nofun⟩
    (chunkReports_stage pcts) List.nil_prefix (by simpa using hcode), chunkReports_codes]
  refine and_congr_right fun _ => ⟨fun h c hc => ?_, fun h c hc _ hne => absurd (h c hc) hne⟩
  by_contra hne
  obtain ⟨_, habsurd⟩ := h c hc (fun hzero => hcode (hzero ▸ hc)) hne
  cases habsurd

theorem emmcJob_law : StageLaw (emmcJob e p) ↔ EmmcOrderly e p := by
  cases htunnel : e.tunnel with
  | none =>
      have hup : uploadFile e p (pickRemoteName p) errPrintLpUploadFtpFailed =
          (([] : List Int).map chunkReport, some errPrintLpUploadFtpFailed) := by
        rw [uploadFile, htunnel]
        rfl
      rw [emmcJob_failed e p (by simp [errPrintLpUploadFtpFailed]) hup]
      refine iff_of_false (fun h => ?_) ?_
      · exact absurd (h.2 _ rfl) (by decide)
      · rintro ⟨_, hsome, _⟩
        rw [htunnel] at hsome
        cases hsome
  | some conn =>
      obtain ⟨hchanges, hwhole⟩ := changes_rise_iff (chunkPercents_bounds e p conn)
      have horderly : EmmcOrderly e p ↔ (chunkPercents e p conn).Pairwise (· ≤ ·) ∧
          ∀ out s, emmcOutcome e p (pickRemoteName p) conn = .ok (out, s) →
            out.ok = true ∨ out.error = some .cancelled := by
        rw [chunkPercents_rise_iff]
        constructor
        · rintro ⟨conn', hsome, h⟩
          rw [htunnel] at hsome
          rwa [Option.some.inj hsome]
        · exact fun h => ⟨conn, htunnel, h⟩
      rw [horderly]
      cases houtcome : emmcOutcome e p (pickRemoteName p) conn with
      | error halt =>
          have hup : uploadFile e p (pickRemoteName p) errPrintLpUploadFtpFailed =
              ((changes (-1) (chunkPercents e p conn)).map chunkReport, none) := by
            rw [uploadFile, htunnel]
            simp only [houtcome]
            rfl
          rw [emmcJob_failed e p (by simp) hup, hchanges]
          simp
      | ok r =>
          obtain ⟨out, s⟩ := r
          by_cases hok : out.ok = true
          · have hup : uploadFile e p (pickRemoteName p) errPrintLpUploadFtpFailed =
                ((changes (-1) (chunkPercents e p conn) ++ [100]).map chunkReport, some 0) := by
              rw [uploadFile, htunnel]
              simp only [houtcome, hok, if_true, List.map_append]
              rfl
            rw [emmcJob]
            simp only [hup]
            rw [if_neg (not_not.mpr rfl), startPrint_law e p (chunkReports_stage _), chunkReports_codes,
              hwhole]
            simp [hok]
          by_cases hcancel : out.error = some .cancelled
          · have hup : uploadFile e p (pickRemoteName p) errPrintLpUploadFtpFailed =
                ((changes (-1) (chunkPercents e p conn)).map chunkReport, some errCanceled) := by
              rw [uploadFile, htunnel]
              simp only [houtcome, if_neg hok, if_pos hcancel]
              rfl
            rw [emmcJob_failed e p (by simp [errCanceled]) hup, hchanges]
            simp [hcancel]
          · have hup : uploadFile e p (pickRemoteName p) errPrintLpUploadFtpFailed =
                ((changes (-1) (chunkPercents e p conn)).map chunkReport,
                  some errPrintLpUploadFtpFailed) := by
              rw [uploadFile, htunnel]
              simp only [houtcome, if_neg hok, if_neg hcancel]
              rfl
            rw [emmcJob_failed e p (by simp [errPrintLpUploadFtpFailed]) hup]
            refine iff_of_false (fun h => ?_) (fun h => ?_)
            · exact absurd (h.2 _ rfl) (by decide)
            · exact (h.2 out s rfl).elim hok hcancel

/-! ## The job -/

theorem refused_law {code : Int} (hcode : code ≠ 0) (text : Bytes) :
    StageLaw { reports := [failed code text], code := some code } where
  order := ⟨[], ⟨nofun, List.Pairwise.nil⟩, List.nil_prefix⟩
  finished := by
    refine iff_of_false ?_ (by simpa using hcode)
    rintro ⟨r, hr, hstage⟩
    rw [List.mem_singleton.mp hr] at hstage
    cases hstage
  failed := fun c hc _ _ => ⟨text, by rw [← Option.some.inj hc]; rfl⟩

/-- The run that goes to the FTP server. -/
def ftpJob : JobRun :=
  let up := ftpUpload e p (remotePath p) errPrintLpUploadFtpFailed
  let storedPath := up.stor.getD []
  if up.code ≠ 0 then
    { reports := created :: up.reports, code := some up.code, uploaded := up.stor.map .stor }
  else
    startPrint e p (created :: up.reports) (.stor storedPath)
      (projectFileOpts e p storedPath (buildFtpUrl storedPath))

theorem ftpJob_law : StageLaw (ftpJob e p) := by
  obtain ⟨uploads, hrising, hup⟩ := ftpUpload_reports e p (remotePath p)
    errPrintLpUploadFtpFailed (by decide)
  unfold ftpJob
  simp only
  rcases hup with ⟨hcode, hreports⟩ | ⟨hcode, text, hreports⟩
  · rw [if_neg (not_not.mpr hcode), hreports]
    exact (startPrint_law e p hrising.stage _ _).mpr hrising.rise
  · have hstages : ∀ r ∈ created :: (uploads ++ []), isError r = false := by
      intro r hr
      rw [List.append_nil] at hr
      rcases List.mem_cons.mp hr with rfl | hr
      · rfl
      · rw [isError, hrising.stage r hr]
        rfl
    rw [if_pos hcode, Apart.law_iff uploads []
      [failed (ftpUpload e p (remotePath p) errPrintLpUploadFtpFailed).code text]
      ⟨by simp [hreports], hstages, by simp [isError, failed]⟩ hrising.stage List.nil_prefix
      (by simpa using hcode)]
    exact ⟨hrising.rise, fun c hc _ _ => ⟨text, by rw [Option.some.inj hc]⟩⟩

/-- The job comes to its upload, and that goes to the emmc. -/
structure EmmcStarted : Prop where
  devIp : p.devIp ≠ []
  password : p.password ≠ []
  filename : p.filename ≠ []
  going : e.cancelled .created = false
  emmc : useBrtcCacheUpload p = true

/-- A run keeps the law exactly if it comes to no upload to the emmc, or to an orderly one. -/
theorem stageLaw_iff : StageLaw (runLocalPrintJob e p) ↔ (EmmcStarted e p → EmmcOrderly e p) := by
  unfold runLocalPrintJob
  split_ifs with haccess hfile hcancelled hemmc
  · exact iff_of_true (refused_law (by decide) _) fun h => absurd haccess (by simp [h.devIp, h.password])
  · exact iff_of_true (refused_law (by decide) _) fun h => absurd hfile h.filename
  · refine iff_of_true ?_ fun h => absurd hcancelled (by simp [h.going])
    rw [Apart.law_iff [] [] [] ⟨rfl, by simp [isError, created], nofun⟩
      nofun List.nil_prefix (by simp [errCanceled])]
    exact ⟨List.Pairwise.nil, fun c hc _ hne => absurd (Option.some.inj hc).symm hne⟩
  · rw [not_or] at haccess
    have hstarted : EmmcStarted e p :=
      ⟨haccess.1, haccess.2, hfile, Bool.eq_false_of_not_eq_true hcancelled, hemmc⟩
    rw [imp_iff_right hstarted]
    exact emmcJob_law e p
  · exact iff_of_true (ftpJob_law e p) fun h => absurd h.emmc hemmc

end Job

/-! ## A file of one byte -/

theorem letterA_fits : ([0x61] : Bytes).length < 2 ^ 63 := by decide

def letterA : Upload.File := ⟨[0x61], letterA_fits⟩

theorem letterA_prefix : ([[0x61]] : List Bytes).flatten <+: letterA.content := List.prefix_refl _

/-- MD5 as far as it is used here. -/
def md5Digest (_ : Bytes) : Bytes :=
  [0x0c, 0xc1, 0x75, 0xb9, 0xc0, 0xf1, 0xb6, 0xa8, 0x31, 0xc3, 0x99, 0xe2, 0x69, 0x77, 0x26, 0x61]

theorem length_md5Digest (b : Bytes) : (md5Digest b).length = 16 := rfl

/-- The printer with its storage under `/usb`, which answers every command as it does a `DELE`. -/
def usbPrinter : Ftps.Printer := { Ftps.goodPrinter with answer := fun _ => Ftps.goodPrinter.answer (ascii "DELE") }

/-- A printer that takes everything over FTPS, and nothing on port 6000. -/
def lanSetting : Setting where
  file := letterA
  stat := true
  storReads := some ⟨[[0x61]], letterA_prefix⟩
  hashReads := some ⟨[[0x61]], letterA_prefix⟩
  opensChunked := true
  md5 := ⟨md5Digest, length_md5Digest⟩
  cancelled := fun _ => false
  caFile := ascii "printer.cer"
  ftp :=
    { connect := Ftps.goodPrinter
      cwd := fun dir => if dir = ascii "/usb" then usbPrinter else Ftps.goodPrinter
      stor := Ftps.goodPrinter }
  tunnel := none
  publish := fun _ => 0
  seqId := ascii "1700000000000"
  forceExternal := false

def cubePrint : PrintParams where
  devId := ascii "01P00A000000000"
  taskName := []
  projectName := ascii "cube"
  filename := ascii "/tmp/cube.3mf"
  plateIndex := 1
  ftpFolder := ascii "sdcard"
  ftpFileMd5 := []
  nozzleMapping := []
  amsMapping := []
  amsMapping2 := []
  devIp := ascii "192.168.1.7"
  useSslForFtp := true
  username := []
  password := ascii "12345678"
  taskBedLeveling := true
  taskFlowCali := false
  taskVibrationCali := false
  taskLayerInspect := false
  taskRecordTimelapse := false
  taskTimelapseUseInternal := false
  taskUseAms := false
  taskBedType := []
  autoBedLeveling := 0
  autoFlowCali := 0
  autoOffsetCali := 0
  extruderCaliManualMode := -1
  tryEmmcPrint := false

def cubeToEmmc : PrintParams := { cubePrint with tryEmmcPrint := true }

/-- Without a connection to port 6000 the job fails and reports no error. -/
theorem stageLaw_fails : ¬ StageLaw (runLocalPrintJob lanSetting cubeToEmmc) := by
  intro hlaw
  obtain ⟨text, herror⟩ := hlaw.failed errPrintLpUploadFtpFailed (by decide +kernel) (by decide) (by decide)
  have hnone : (runLocalPrintJob lanSetting cubeToEmmc).reports.filter isError = [] := by decide +kernel
  rw [hnone] at herror
  cases herror

end OpenBambu.Print
