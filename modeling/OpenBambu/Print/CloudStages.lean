import OpenBambu.Print.CloudScript

/-!
# The stages of the cloud print job

What `run_cloud_print_job` reports on its way: the stages in their order, Finished exactly when it succeeds,
and its errors. Only two ends of it are silent, a cancellation between the steps and a failed upload over
port 6000.
-/

namespace OpenBambu.Print

open OpenBambu.Foundation OpenBambu.Json OpenBambu.Cloud OpenBambu.Foundation.Dialogue
open OpenBambu.Agent (Response Session filename)

/-- The calls of `update_fn`, those of the uploads included. -/
def reportsOf : Exchange CloudAnswer → List Report
  | ⟨.report r, _⟩ => [r]
  | ⟨.ftpUpload .., up⟩ => up.1.reports
  | ⟨.emmcUpload .., up⟩ => up.1.1
  | _ => []

def reports (t : List (Exchange CloudAnswer)) : List Report := t.flatMap reportsOf

/-- An end of which nothing is reported. -/
def Unreported (t : List (Exchange CloudAnswer)) (code : Int) : Prop :=
  t.getLast? = some ⟨.cancelled, true⟩ ∧ code = errCanceled ∨
    ∃ p remoteName up, t.getLast? = some ⟨.emmcUpload p remoteName, up⟩ ∧ up.1.2 = code

/-- The stages that a run has reported, with the error it ends in. -/
def EndsIn (stages : List Report) (code : Int) (t : List (Exchange CloudAnswer)) : Prop :=
  code ≠ 0 ∧ ((∃ text, reports t = stages ++ [failed code text]) ∨ reports t = stages ∧ Unreported t code)

/-! ## The steps between Create and Sending -/

/-- A part of the job whose reports are such as `P` says, with an error behind them if it gives up. -/
structure Tells {α : Type} (P : Report → Prop) (x : CloudStep α) : Prop where
  returns : ∀ t a, x.Runs t (.ok a) → ∀ r ∈ reports t, P r
  fails : ∀ t code, x.Runs t (.error code) → ∃ stages, (∀ r ∈ stages, P r) ∧ EndsIn stages code t

def isUpload (r : Report) : Prop := r.stage = .upload

section Steps

variable {α β : Type} {P : Report → Prop} {x : CloudStep α} {t t' : List (Exchange CloudAnswer)}
  {stages : List Report} {code : Int}

theorem reports_append (t t' : List (Exchange CloudAnswer)) : reports (t ++ t') = reports t ++ reports t' :=
  List.flatMap_append

theorem Unreported.behind (h : Unreported t code) (front : List (Exchange CloudAnswer)) :
    Unreported (front ++ t) code := by
  have hlast {x : Exchange CloudAnswer} (hx : t.getLast? = some x) : (front ++ t).getLast? = some x := by
    rw [List.getLast?_append, hx, Option.some_or]
  rcases h with ⟨hcancelled, hcode⟩ | ⟨p, remoteName, up, hup, hcode⟩
  · exact Or.inl ⟨hlast hcancelled, hcode⟩
  · exact Or.inr ⟨p, remoteName, up, hlast hup, hcode⟩

theorem EndsIn.behind (h : EndsIn stages code t) (front : List (Exchange CloudAnswer)) :
    EndsIn (reports front ++ stages) code (front ++ t) := by
  obtain ⟨hcode, ⟨text, htext⟩ | ⟨hquiet, hunreported⟩⟩ := h
  · exact ⟨hcode, Or.inl ⟨text, by rw [reports_append, htext, List.append_assoc]⟩⟩
  · exact ⟨hcode, Or.inr ⟨by rw [reports_append, hquiet], hunreported.behind front⟩⟩

theorem tells_pure (a : α) : Tells P (pure a : CloudStep α) where
  returns t b ht := by
    obtain ⟨rfl, -⟩ := Job.runs_pure.mp ht
    exact List.forall_mem_nil _
  fails t code ht := nomatch (Job.runs_pure.mp ht).2

theorem tells_bind {f : α → CloudStep β} (hx : Tells P x) (hf : ∀ a, Tells P (f a)) : Tells P (x >>= f) where
  returns t b ht := by
    rcases Job.runs_bind.mp ht with ⟨e, -, he⟩ | ⟨a, t₁, t₂, h₁, h₂, rfl⟩
    · exact nomatch he
    · rw [reports_append]
      exact List.forall_mem_append.mpr ⟨hx.returns t₁ a h₁, (hf a).returns t₂ b h₂⟩
  fails t code ht := by
    rcases Job.runs_bind.mp ht with ⟨e, h, he⟩ | ⟨a, t₁, t₂, h₁, h₂, rfl⟩
    · obtain rfl := Except.error.inj he
      exact hx.fails t code h
    · obtain ⟨stages, hstages, hends⟩ := (hf a).fails t₂ code h₂
      exact ⟨_, List.forall_mem_append.mpr ⟨hx.returns t₁ a h₁, hstages⟩, hends.behind t₁⟩

theorem tells_ask {c : CloudCall} {f : CloudAnswer c → CloudStep α}
    (hc : ∀ ans, ∀ r ∈ reportsOf ⟨c, ans⟩, P r) (hf : ∀ ans, Tells P (f ans)) :
    Tells P (Job.ask c >>= f) where
  returns t a ht := by
    obtain ⟨ans, rest, hrest, rfl⟩ := Job.runs_ask_bind.mp ht
    exact List.forall_mem_append.mpr ⟨hc ans, (hf ans).returns rest a hrest⟩
  fails t code ht := by
    obtain ⟨ans, rest, hrest, rfl⟩ := Job.runs_ask_bind.mp ht
    obtain ⟨stages, hstages, hends⟩ := (hf ans).fails rest code hrest
    have hbehind := hends.behind [⟨c, ans⟩]
    rw [reports, List.flatMap_singleton] at hbehind
    exact ⟨_, List.forall_mem_append.mpr ⟨hc ans, hstages⟩, hbehind⟩

theorem runs_giveUp {code : Int} {text : Bytes} {r : Except Int α}
    (h : (giveUp code text : CloudStep α).Runs t r) : reports t = [failed code text] ∧ r = .error code := by
  obtain ⟨ans, rest, hrest, rfl⟩ := Job.runs_ask_bind.mp h
  obtain ⟨rfl, rfl⟩ := Job.runs_throw.mp hrest
  exact ⟨rfl, rfl⟩

theorem tells_giveUp {code : Int} (hcode : code ≠ 0) (text : Bytes) : Tells P (giveUp code text : CloudStep α) where
  returns t a ht := nomatch (runs_giveUp ht).2
  fails t e ht := by
    obtain ⟨hreports, he⟩ := runs_giveUp ht
    obtain rfl := Except.error.inj he
    exact ⟨[], List.forall_mem_nil _, hcode, Or.inl ⟨text, hreports⟩⟩

theorem tells_failStage {code : Int} (hcode : code ≠ 0) (what : Bytes) (resp : Response) :
    Tells P (failStage code what resp : CloudStep α) := tells_giveUp hcode _

theorem tells_perform {req : Request} {f : Response → CloudStep α} (hf : ∀ resp, Tells P (f resp)) :
    Tells P (perform req >>= f) := tells_ask (fun _ => List.forall_mem_nil _) hf

/-- A question for a cancellation, which nothing tells of. -/
theorem tells_unlessCancelled (hx : Tells P x) :
    Tells P (do
      let cancelled ← isCancelled
      if cancelled = true then throw errCanceled else x) where
  returns t a ht := by
    obtain ⟨cancelled, rest, hrest, rfl⟩ := Job.runs_ask_bind.mp ht
    split_ifs at hrest
    · exact nomatch (Job.runs_throw.mp hrest).2
    · exact hx.returns rest a hrest
  fails t code ht := by
    obtain ⟨cancelled, rest, hrest, rfl⟩ := Job.runs_ask_bind.mp ht
    split_ifs at hrest with hcancelled
    · obtain ⟨rfl, he⟩ := Job.runs_throw.mp hrest
      obtain rfl := Except.error.inj he
      obtain rfl : cancelled = true := hcancelled
      exact ⟨[], List.forall_mem_nil _, by decide, Or.inr ⟨rfl, Or.inl ⟨rfl, rfl⟩⟩⟩
    · obtain ⟨stages, hstages, hends⟩ := hx.fails rest code hrest
      exact ⟨stages, hstages, hends.behind [⟨.cancelled, cancelled⟩]⟩

variable (a : Account)

theorem createProject_tells (name : Bytes) : Tells P (createProject a name) := by
  refine tells_perform fun resp => ?_
  split_ifs
  · cases parse resp.body with
    | error e => exact tells_giveUp (by decide) _
    | ok root =>
        simp only
        split_ifs
        · exact tells_giveUp (by decide) _
        · exact tells_pure _
  · exact tells_failStage (by decide) _ _

theorem percentReport_tells (pct : Nat) : Tells isUpload (report (percentReport pct)) where
  returns t a ht := by
    obtain ⟨ans, rfl, -⟩ := Job.runs_ask.mp ht
    exact List.forall_mem_singleton.mpr rfl
  fails t code ht := by
    obtain ⟨ans, -, he⟩ := Job.runs_ask.mp ht
    exact nomatch he

theorem s3Put_tells (url body : Bytes) (startPct endPct : Nat) {code : Int} (hcode : code ≠ 0) :
    Tells isUpload (s3Put url body startPct endPct code) := by
  refine tells_bind (percentReport_tells startPct) fun _ => tells_perform fun resp => ?_
  split_ifs
  · exact percentReport_tells endPct
  · exact tells_failStage hcode _ _

theorem notifyUpload_tells (ticket originName : Bytes) : Tells P (notifyUpload a ticket originName) := by
  refine tells_perform fun resp => ?_
  split_ifs
  · exact tells_pure _
  · exact tells_failStage (by decide) _ _

theorem pollUpload_tells (ticket : Bytes) (attempts : Nat) : Tells P (pollUpload a ticket attempts) := by
  induction attempts with
  | zero => exact tells_giveUp (by decide) _
  | succ attempts ih =>
      refine tells_unlessCancelled (tells_perform fun resp => ?_)
      split_ifs
      · exact tells_pure _
      · exact ih

theorem patchProject_tells (projectId profileId md5 : Bytes) (plateIdx : Int) (url : Bytes) :
    Tells P (patchProject a projectId profileId md5 plateIdx url) := by
  refine tells_perform fun resp => ?_
  split_ifs
  · exact tells_pure _
  · exact tells_failStage (by decide) _ _

theorem getUploadUrl_tells (slot : Bytes) : Tells P (getUploadUrl a slot) := by
  have hfail {α : Type} (what : Bytes) (resp : Response) :
      Tells P (failStage errPrintWrGetUserUploadFailed what resp : CloudStep α) := tells_failStage (by decide) _ _
  refine tells_perform fun resp => ?_
  split_ifs
  · cases parse resp.body with
    | error e => exact hfail _ _
    | ok root =>
        simp only
        split
        · exact hfail _ _
        · split_ifs
          · exact hfail _ _
          · exact tells_pure _
  · exact hfail _ _

theorem createTask_tells (body : Bytes) : Tells P (createTask a body) := by
  have hfail {α : Type} (what : Bytes) (resp : Response) :
      Tells P (failStage errPrintWrPostTaskFailed what resp : CloudStep α) := tells_failStage (by decide) _ _
  refine tells_perform fun resp => ?_
  split_ifs with haccepted
  · cases parse resp.body with
    | error e => exact hfail _ _
    | ok root =>
        simp only
        generalize (if (root.find (ascii "id")).asString = [] then rawTaskId resp.body
          else (root.find (ascii "id")).asString) = taskId
        split_ifs
        · exact hfail _ _
        · exact tells_pure _
  · exact tells_pure _

theorem readFile_tells (path text : Bytes) : Tells P (readFile path text) := by
  refine tells_ask (fun _ => List.forall_mem_nil _) fun bytes => ?_
  split_ifs
  · exact tells_giveUp (by decide) _
  · exact tells_pure _

end Steps

section Job

variable (c : CloudSetting) (p : CloudParams)

theorem recordProject_tells : Tells isUpload (recordProject c p) := by
  refine tells_bind (createProject_tells _ _) fun info => ?_
  refine tells_bind (readFile_tells _ _) fun configBytes => ?_
  refine tells_bind (s3Put_tells _ _ _ _ (by decide)) fun _ => ?_
  refine tells_bind (notifyUpload_tells _ _ _) fun _ => ?_
  refine tells_bind (pollUpload_tells _ _ _) fun _ => ?_
  refine tells_bind (patchProject_tells _ _ _ _ _ _) fun _ => ?_
  refine tells_bind (getUploadUrl_tells _ _) fun mainUploadUrl => ?_
  refine tells_bind (readFile_tells _ _) fun mainBytes => ?_
  refine tells_bind (s3Put_tells _ _ _ _ (by decide)) fun _ => ?_
  exact tells_bind (patchProject_tells _ _ _ _ _ _) fun _ => tells_pure _

/-- The upload over port 6000 reports nothing of its failure. -/
theorem uploadFile_stage (e : Setting) (q : PrintParams) (remoteName : Bytes) (errCode : Int) :
    ∀ r ∈ (uploadFile e q remoteName errCode).1, r.stage = .upload := by
  unfold uploadFile
  cases e.tunnel with
  | none => exact List.forall_mem_nil _
  | some conn =>
      simp only
      split
      · exact chunkReports_stage _
      · split_ifs
        · exact List.forall_mem_append.mpr ⟨chunkReports_stage _, List.forall_mem_singleton.mpr rfl⟩
        · exact chunkReports_stage _
        · exact chunkReports_stage _

theorem emmc_tells :
    Tells isUpload (do
      let up ← (Job.ask (CloudCall.emmcUpload p.toPrintParams (pickRemoteName p.toPrintParams)) : CloudStep _)
      if up.1.2 ≠ 0 then throw up.1.2 else pure Delivery.emmc) where
  returns t d ht := by
    obtain ⟨⟨up, e, hup⟩, rest, hrest, rfl⟩ := Job.runs_ask_bind.mp ht
    have hstage := uploadFile_stage e p.toPrintParams (pickRemoteName p.toPrintParams) errPrintLpUploadFtpFailed
    rw [hup] at hstage
    split_ifs at hrest
    · exact nomatch (Job.runs_throw.mp hrest).2
    · obtain ⟨rfl, -⟩ := Job.runs_pure.mp hrest
      simpa [reports, reportsOf, isUpload] using hstage
  fails t code ht := by
    obtain ⟨⟨up, e, hup⟩, rest, hrest, rfl⟩ := Job.runs_ask_bind.mp ht
    have hstage := uploadFile_stage e p.toPrintParams (pickRemoteName p.toPrintParams) errPrintLpUploadFtpFailed
    rw [hup] at hstage
    split_ifs at hrest with hcode
    · obtain ⟨rfl, he⟩ := Job.runs_throw.mp hrest
      obtain rfl := Except.error.inj he
      exact ⟨up.1, hstage, hcode, Or.inr ⟨by simp [reports, reportsOf], Or.inr ⟨_, _, _, rfl, rfl⟩⟩⟩
    · exact nomatch (Job.runs_pure.mp hrest).2

theorem ftp_tells (done : FtpUpload → Delivery) :
    Tells isUpload (do
      let up ← (Job.ask (CloudCall.ftpUpload p.toPrintParams (remotePath p.toPrintParams)) : CloudStep _)
      if up.1.code ≠ 0 then throw up.1.code else pure (done up.1)) where
  returns t d ht := by
    obtain ⟨⟨up, e, rfl⟩, rest, hrest, rfl⟩ := Job.runs_ask_bind.mp ht
    obtain ⟨uploads, hrising, hup⟩ := ftpUpload_reports e p.toPrintParams (remotePath p.toPrintParams)
      errPrintLpUploadFtpFailed (by decide)
    split_ifs at hrest with hcode
    · exact nomatch (Job.runs_throw.mp hrest).2
    · obtain ⟨rfl, -⟩ := Job.runs_pure.mp hrest
      rcases hup with ⟨-, hreports⟩ | ⟨hne, -⟩
      · simpa [reports, reportsOf, hreports, isUpload] using hrising.stage
      · exact absurd (not_not.mp hcode) hne
  fails t code ht := by
    obtain ⟨⟨up, e, rfl⟩, rest, hrest, rfl⟩ := Job.runs_ask_bind.mp ht
    obtain ⟨uploads, hrising, hup⟩ := ftpUpload_reports e p.toPrintParams (remotePath p.toPrintParams)
      errPrintLpUploadFtpFailed (by decide)
    split_ifs at hrest with hcode
    · obtain ⟨rfl, he⟩ := Job.runs_throw.mp hrest
      obtain rfl := Except.error.inj he
      rcases hup with ⟨hzero, -⟩ | ⟨hne, text, hreports⟩
      · exact absurd hzero hcode
      · exact ⟨uploads, hrising.stage, hne, Or.inl ⟨text, by simpa [reports, reportsOf] using hreports⟩⟩
    · exact nomatch (Job.runs_pure.mp hrest).2

theorem deliver_tells (mainUrl : Bytes) (useLanChannel : Bool) : Tells isUpload (deliver p mainUrl useLanChannel) := by
  unfold deliver
  split_ifs
  · exact tells_pure _
  · exact tells_pure _
  · exact emmc_tells p
  · exact ftp_tells p fun up => .stored (if up.stor.getD [] = [] then remotePath p.toPrintParams else up.stor.getD [])

/-- A run of the job has told what it has come to. -/
inductive Told (t : List (Exchange CloudAnswer)) : Except Int Unit → Prop
  | done {uploads : List Report} (hup : ∀ r ∈ uploads, r.stage = .upload)
      (h : reports t = created :: (uploads ++ [sending, finished])) : Told t (.ok ())
  | gaveUp {uploads stages : List Report} {code : Int} (hup : ∀ r ∈ uploads, r.stage = .upload)
      (hstages : stages <+: created :: (uploads ++ [sending])) (h : EndsIn stages code t) : Told t (.error code)

theorem startCloudPrint_tells (info : ProjectInfo) (taskId : Bytes) (delivery : Delivery)
    {t : List (Exchange CloudAnswer)} {r : Except Int Unit} (ht : (startCloudPrint c p info taskId delivery).Runs t r) :
    r = .ok () ∧ reports t = [finished] ∨ ∃ code, r = .error code ∧ EndsIn [] code t := by
  obtain ⟨rc, rest, hrest, rfl⟩ := Job.runs_ask_bind.mp ht
  split_ifs at hrest with hrc
  · obtain ⟨hreports, rfl⟩ := runs_giveUp hrest
    exact Or.inr ⟨_, rfl, by decide, Or.inl ⟨_, hreports⟩⟩
  · obtain ⟨ans, rfl, rfl⟩ := Job.runs_ask.mp hrest
    exact Or.inl ⟨rfl, rfl⟩

theorem startTask_tells (info : ProjectInfo) (delivery : Delivery) {t : List (Exchange CloudAnswer)}
    {r : Except Int Unit} (ht : (startTask c p info delivery).Runs t r) :
    r = .ok () ∧ reports t = [sending, finished] ∨ ∃ code, r = .error code ∧ EndsIn [sending] code t := by
  obtain ⟨ans, rest, hrest, rfl⟩ := Job.runs_ask_bind.mp ht
  have hquiet := createTask_tells (P := fun _ => False) c.account
    (buildTaskBody p info.modelId info.profileId c.forceExternal delivery.usesLan)
  rcases Job.runs_bind.mp hrest with ⟨code, hcode, rfl⟩ | ⟨taskId, t₁, t₂, h₁, h₂, rfl⟩
  · obtain ⟨stages, hstages, hends⟩ := hquiet.fails rest code hcode
    obtain rfl := List.eq_nil_iff_forall_not_mem.mpr hstages
    exact Or.inr ⟨code, rfl, hends.behind [⟨.report sending, ()⟩]⟩
  · have hnone := List.eq_nil_iff_forall_not_mem.mpr (hquiet.returns t₁ taskId h₁)
    have hfront : reports (⟨.report sending, ans⟩ :: t₁) = [sending] := congrArg (sending :: ·) hnone
    rw [← List.cons_append]
    rcases startCloudPrint_tells c p info taskId delivery h₂ with ⟨rfl, hreports⟩ | ⟨code, rfl, hends⟩
    · exact Or.inl ⟨rfl, by rw [reports_append, hfront, hreports]; rfl⟩
    · have hbehind := hends.behind (⟨.report sending, ans⟩ :: t₁)
      rw [hfront] at hbehind
      exact Or.inr ⟨code, rfl, hbehind⟩

theorem runCloudPrintJob_told (useLanChannel : Bool) {t : List (Exchange CloudAnswer)} {r : Except Int Unit}
    (ht : (runCloudPrintJob c p useLanChannel).Runs t r) : Told t r := by
  unfold runCloudPrintJob at ht
  split_ifs at ht
  · obtain ⟨hreports, rfl⟩ := runs_giveUp ht
    exact .gaveUp (List.forall_mem_nil _) (List.nil_prefix) ⟨by decide, Or.inl ⟨_, hreports⟩⟩
  · obtain ⟨hreports, rfl⟩ := runs_giveUp ht
    exact .gaveUp (List.forall_mem_nil _) (List.nil_prefix) ⟨by decide, Or.inl ⟨_, hreports⟩⟩
  · obtain ⟨_, rest, hrest, rfl⟩ := Job.runs_ask_bind.mp ht
    obtain ⟨cancelled, rest, hbehind, rfl⟩ := Job.runs_ask_bind.mp hrest
    have hends {stages : List Report} {code : Int} {t : List (Exchange CloudAnswer)} (h : EndsIn stages code t) :
        EndsIn (created :: stages) code (⟨.report created, ()⟩ :: ⟨.cancelled, cancelled⟩ :: t) :=
      h.behind [⟨.report created, ()⟩, ⟨.cancelled, cancelled⟩]
    split_ifs at hbehind with hcancelled
    · obtain ⟨rfl, rfl⟩ := Job.runs_throw.mp hbehind
      obtain rfl : cancelled = true := hcancelled
      exact .gaveUp (List.forall_mem_nil _) ⟨[sending], rfl⟩
        ⟨by decide, Or.inr ⟨rfl, Or.inl ⟨rfl, rfl⟩⟩⟩
    · rcases Job.runs_bind.mp hbehind with ⟨code, hcode, rfl⟩ | ⟨⟨info, mainUrl⟩, t₁, t₂, h₁, h₂, rfl⟩
      · obtain ⟨stages, hstages, hfail⟩ := (recordProject_tells c p).fails rest code hcode
        exact .gaveUp hstages ⟨[sending], rfl⟩ (hends hfail)
      · have hfirst := (recordProject_tells c p).returns t₁ _ h₁
        rcases Job.runs_bind.mp h₂ with ⟨code, hcode, rfl⟩ | ⟨delivery, t₂, t₃, hd, h₃, rfl⟩
        · obtain ⟨stages, hstages, hfail⟩ := (deliver_tells p mainUrl useLanChannel).fails t₂ code hcode
          exact .gaveUp (List.forall_mem_append.mpr ⟨hfirst, hstages⟩) ⟨[sending], rfl⟩
            (hends (hfail.behind t₁))
        · have hsecond := (deliver_tells p mainUrl useLanChannel).returns t₂ _ hd
          have hup := List.forall_mem_append.mpr ⟨hfirst, hsecond⟩
          rcases startTask_tells c p info delivery h₃ with ⟨rfl, hreports⟩ | ⟨code, rfl, hfail⟩
          · refine .done hup ?_
            have hall : reports (t₁ ++ (t₂ ++ t₃)) = reports t₁ ++ reports t₂ ++ [sending, finished] := by
              rw [reports_append, reports_append, hreports, List.append_assoc]
            exact congrArg (created :: ·) hall
          · refine .gaveUp hup (List.prefix_refl _) (hends ?_)
            rw [List.append_assoc]
            exact (hfail.behind t₂).behind t₁

/-- The stages in their order, one error at most with the code of the job behind them, and Finished exactly
for success. -/
structure CloudStageLaw (t : List (Exchange CloudAnswer)) (r : Except Int Unit) : Prop where
  order : ∃ uploads, (∀ x ∈ uploads, x.stage = .upload) ∧
    (reports t).filter (fun x => !isError x) <+: created :: (uploads ++ [sending, finished])
  finished : (∃ x ∈ reports t, x.stage = .finished) ↔ r = .ok ()
  succeeded : r = .ok () → (reports t).filter isError = []
  failed : ∀ code, r = .error code → code ≠ 0 ∧
    ((∃ text, (reports t).filter isError = [failed code text]) ∨
      (reports t).filter isError = [] ∧ Unreported t code)

/-- None of the stages is an error. -/
theorem noError_of_stages {uploads stages : List Report} (hup : ∀ r ∈ uploads, r.stage = .upload)
    (hstages : stages <+: created :: (uploads ++ [sending, finished])) : ∀ x ∈ stages, isError x = false := by
  have hall : ∀ x ∈ created :: (uploads ++ [sending, finished]), isError x = false := by
    simp only [List.forall_mem_cons, List.forall_mem_append]
    exact ⟨rfl, fun x hx => by rw [isError, hup x hx]; rfl, rfl, rfl, List.forall_mem_nil _⟩
  exact fun x hx => hall x (hstages.subset hx)

theorem filters_of_stages {stages : List Report} (h : ∀ x ∈ stages, isError x = false) :
    stages.filter (fun x => !isError x) = stages ∧ stages.filter isError = [] :=
  ⟨List.filter_eq_self.mpr fun x hx => by simp [h x hx], List.filter_eq_nil_iff.mpr fun x hx => by simp [h x hx]⟩

theorem told_law {t : List (Exchange CloudAnswer)} {r : Except Int Unit} (h : Told t r) : CloudStageLaw t r := by
  cases h with
  | @done uploads hup hreports =>
      obtain ⟨hstages, herrors⟩ := filters_of_stages (noError_of_stages hup (List.prefix_refl _))
      rw [← hreports] at hstages herrors
      refine ⟨⟨uploads, hup, by rw [hstages, hreports]⟩, ⟨fun _ => rfl, fun _ => ⟨finished, ?_, rfl⟩⟩,
        fun _ => herrors, nofun⟩
      simp [hreports]
  | @gaveUp uploads stages code hup hstages hends =>
      have hmore : stages <+: created :: (uploads ++ [sending, finished]) :=
        hstages.trans ⟨[finished], by simp⟩
      obtain ⟨hself, herrors⟩ := filters_of_stages (noError_of_stages hup hmore)
      have hunfinished : ∀ x ∈ stages, x.stage ≠ .finished := by
        have hall : ∀ x ∈ created :: (uploads ++ [sending]), x.stage ≠ .finished := by
          simp only [List.forall_mem_cons, List.forall_mem_append]
          exact ⟨nofun, fun x hx => by rw [hup x hx]; exact nofun, nofun, List.forall_mem_nil _⟩
        exact fun x hx => hall x (hstages.subset hx)
      obtain ⟨hcode, ⟨text, hreports⟩ | ⟨hreports, hunreported⟩⟩ := hends
      · have hlast : isError (failed code text) = true := rfl
        refine ⟨⟨uploads, hup, ?_⟩, ⟨?_, nofun⟩, nofun, fun code' hcode' => ?_⟩
        · rwa [hreports, List.filter_append, hself, List.filter_cons_of_neg (by simp [hlast]), List.filter_nil,
            List.append_nil]
        · rw [hreports]
          rintro ⟨x, hx, hfinished⟩
          rcases List.mem_append.mp hx with hx | hx
          · exact absurd hfinished (hunfinished x hx)
          · rw [List.mem_singleton.mp hx] at hfinished
            exact nomatch hfinished
        · obtain rfl := Except.error.inj hcode'
          refine ⟨hcode, Or.inl ⟨text, ?_⟩⟩
          rw [hreports, List.filter_append, herrors, List.filter_cons_of_pos hlast, List.filter_nil,
            List.nil_append]
      · refine ⟨⟨uploads, hup, by rwa [hreports, hself]⟩, ⟨?_, nofun⟩, nofun, fun code' hcode' => ?_⟩
        · rw [hreports]
          rintro ⟨x, hx, hfinished⟩
          exact absurd hfinished (hunfinished x hx)
        · obtain rfl := Except.error.inj hcode'
          exact ⟨hcode, Or.inr ⟨by rw [hreports, herrors], hunreported⟩⟩

theorem cloud_job_stages (useLanChannel : Bool) {t : List (Exchange CloudAnswer)} {r : Except Int Unit}
    (ht : (runCloudPrintJob c p useLanChannel).Runs t r) : CloudStageLaw t r :=
  told_law (runCloudPrintJob_told c p useLanChannel ht)

end Job

/-- Over the LAN the upload to port 6000 fails, and nothing of it is reported. -/
theorem cloud_job_stages_emmc :
    let p : CloudParams := { cubeOverCloud with tryEmmcPrint := true }
    let r := run grantingCloud [] (runCloudPrintJob loggedInSetting p true)
    r.2 = .error errPrintLpUploadFtpFailed ∧ CloudStageLaw r.1 r.2 :=
  ⟨by decide +kernel, cloud_job_stages _ _ true (runs_run grantingCloud [] _)⟩

end OpenBambu.Print
