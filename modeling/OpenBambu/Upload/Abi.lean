import OpenBambu.Json.Counts
import OpenBambu.Upload.Chunked

/-!
# The numbers of a request

A sequence goes from `uint32_t` through a double, its decimal, a double again, `int64_t` and `int` back
to `uint32_t`, where it is compared. Every request comes out of this with its own `cmdtype` and
sequence, and with the totals and offsets that a double holds.
-/

namespace OpenBambu.Upload

open OpenBambu.Foundation OpenBambu.Json OpenBambu.Tunnel

/-- The requests of the file commands. -/
inductive Request where
  | mediaAbility
  | fileUploadInit (destStorage destName : Bytes) (total : UInt64)
  | fileUploadChunk (fragId : UInt32) (offset : UInt64) (size : UInt32) (fileMd5Lower : Bytes)
  | fileDelete (destStorage destName : Bytes)
  | fileDownload (path : Bytes) (offset : UInt64) (targetPath : Bytes)
  | subFile (paths : List Bytes) (storage : Bytes)
  | listInfo (type storage : Bytes)

namespace Request

def abi (sequence : UInt32) : Request → Bytes
  | mediaAbility => buildMediaAbilityAbi sequence
  | fileUploadInit destStorage destName total =>
      buildFileUploadInitAbi sequence destStorage destName total
  | fileUploadChunk fragId offset size fileMd5Lower =>
      buildFileUploadChunkAbi sequence fragId offset size fileMd5Lower
  | fileDelete destStorage destName => buildFileDeleteAbi sequence destStorage destName
  | fileDownload path offset targetPath => buildFileDownloadAbi sequence path offset targetPath
  | subFile paths storage => buildSubFileAbi sequence paths storage
  | listInfo type storage => buildListInfoAbi sequence type storage

def cmdtype : Request → Nat
  | mediaAbility => kCmdMediaAbility
  | fileUploadInit .. | fileUploadChunk .. => kCmdFileUpload
  | fileDelete .. => kCmdFileDel
  | fileDownload .. => kCmdFileDownload
  | subFile .. => kCmdSubFile
  | listInfo .. => kCmdListInfo

/-- The totals and offsets of a request, with their keys. -/
def wide : Request → List (String × UInt64)
  | fileUploadInit _ _ total => [("total", total)]
  | fileUploadChunk _ offset _ _ | fileDownload _ offset _ => [("offset", offset)]
  | _ => []

/-- What is assigned to the request part. -/
def members : Request → List (String × Value)
  | mediaAbility => [("peer", .string (ascii "studio")), ("api_version", count 2)]
  | fileUploadInit destStorage destName total =>
      [("type", .string (ascii "model")), ("path", .string destName), ("total", count total.toNat)] ++
        unlessEmpty "storage" destStorage
  | fileUploadChunk fragId offset size fileMd5Lower =>
      [("frag_id", count fragId.toNat), ("offset", count offset.toNat), ("size", count size.toNat)] ++
        unlessEmpty "file_md5" fileMd5Lower
  | fileDelete destStorage destName =>
      [("delete", .array [.string destName])] ++ unlessEmpty "storage" destStorage
  | fileDownload path offset targetPath =>
      [("path", .string path), ("offset", count offset.toNat)] ++ unlessEmpty "target_path" targetPath
  | subFile paths storage =>
      [("paths", .array (paths.map .string)), ("api_version", count 2), ("peer", .string (ascii "studio"))] ++
        unlessEmpty "storage" storage
  | listInfo type storage =>
      [("type", .string type), ("api_version", count 2), ("notify", .string (ascii "DETAIL"))] ++
        unlessEmpty "storage" storage

/-- All builders fill the same envelope. -/
theorem abi_eq (r : Request) (sequence : UInt32) :
    r.abi sequence = requestAbi r.cmdtype sequence (fields r.members) := by
  cases r <;> rfl

end Request

/-! ## What is written -/

theorem word_writable {n : Nat} (h : n < 2 ^ 64) : Writable (count n) := .number (word_readsBack h)

theorem unlessEmpty_writable (key : String) (s : Bytes) : ∀ p ∈ unlessEmpty key s, Writable p.2 := by
  intro p hp
  unfold unlessEmpty at hp
  split_ifs at hp
  · cases hp
  · obtain rfl := List.mem_singleton.mp hp
    exact .string s

theorem Request.members_writable (r : Request) : ∀ p ∈ r.members, Writable p.2 := by
  have h32 : ∀ n : UInt32, Writable (count n.toNat) := fun n =>
    word_writable (n.toNat_lt.trans (by decide))
  have h64 : ∀ n : UInt64, Writable (count n.toNat) := fun n => word_writable n.toNat_lt
  have h2 : Writable (count 2) := word_writable (by decide)
  have hstrings : ∀ ss : List Bytes, Writable (.array (ss.map .string)) := by
    intro ss
    refine .array fun v hv => ?_
    obtain ⟨s, -, rfl⟩ := List.mem_map.mp hv
    exact .string s
  cases r with
  | mediaAbility => simp [members, Writable.string, h2]
  | fileUploadInit destStorage _ _ =>
      simpa [members, Writable.string, h64, or_imp, forall_and] using unlessEmpty_writable "storage" destStorage
  | fileUploadChunk _ _ _ fileMd5Lower =>
      simpa [members, h32, h64, or_imp, forall_and] using unlessEmpty_writable "file_md5" fileMd5Lower
  | fileDelete destStorage destName =>
      have hname : Writable (.array [.string destName]) := hstrings [destName]
      simpa [members, or_imp, forall_and] using And.intro hname (unlessEmpty_writable "storage" destStorage)
  | fileDownload _ _ targetPath =>
      simpa [members, Writable.string, h64, or_imp, forall_and] using
        unlessEmpty_writable "target_path" targetPath
  | subFile _ storage =>
      simpa [members, Writable.string, h2, hstrings, or_imp, forall_and] using
        unlessEmpty_writable "storage" storage
  | listInfo _ storage =>
      simpa [members, Writable.string, h2, or_imp, forall_and] using unlessEmpty_writable "storage" storage

/-- Assignments keep the keys in order, and every value is one that was assigned. -/
theorem writable_fields {members : List (String × Value)} (h : ∀ p ∈ members, Writable p.2) :
    Writable (.object (fields members)) := by
  have hfold : ∀ (members : List (String × Value)) (o : Object), (∀ p ∈ members, Writable p.2) →
      Writable (.object o) → Writable (.object (members.foldl (fun o p => assign o (ascii p.1) p.2) o)) := by
    intro members
    induction members with
    | nil => exact fun o _ ho => ho
    | cons p members ih =>
        intro o hm ho
        refine ih _ (fun q hq => hm q (List.mem_cons_of_mem _ hq)) ?_
        cases ho with
        | object sorted kept =>
            refine .object (sorted_assign sorted _ _) fun q hq => ?_
            rcases mem_assign hq with rfl | hq
            · exact hm p List.mem_cons_self
            · exact kept q hq
  exact hfold members [] h (.object List.Pairwise.nil (by simp))

/-- The envelope in the order of the map. -/
def envelope (cmdtype : Nat) (sequence : UInt32) (req : Object) : Object :=
  [(ascii "cmdtype", count cmdtype), (ascii "req", .object req), (ascii "sequence", count sequence.toNat)]

theorem requestAbi_envelope (cmdtype : Nat) (sequence : UInt32) (req : Object) :
    requestAbi cmdtype sequence req = (Value.object (envelope cmdtype sequence req)).dump := by
  rw [requestAbi, envelope]
  simp +decide [fields, assign]

theorem envelope_writable {cmdtype : Nat} (hcmd : cmdtype < 2 ^ 64) (sequence : UInt32) {req : Object}
    (hreq : Writable (.object req)) : Writable (.object (envelope cmdtype sequence req)) := by
  refine .object ?_ fun p hp => ?_
  · refine (List.pairwise_map (f := Prod.fst) (R := (· < ·))).mp ?_
    exact (by decide : [ascii "cmdtype", ascii "req", ascii "sequence"].Pairwise (· < ·))
  · simp only [envelope, List.mem_cons, List.not_mem_nil, or_false] at hp
    rcases hp with rfl | rfl | rfl
    · exact word_writable hcmd
    · exact hreq
    · exact word_writable (sequence.toNat_lt.trans (by decide))

/-- What the receiver parses: the envelope with the `mtype` that `wrap_ctrl_abi` puts in front. -/
theorem parse_wrapped_request {cmdtype : Nat} (hcmd : cmdtype < 2 ^ 64) (sequence : UInt32) {req : Object}
    (hreq : Writable (.object req)) :
    parse (wrapCtrlAbi (requestAbi cmdtype sequence req)) =
      .ok (.object (assign (envelope cmdtype sequence req) mtypeKey mtypeValue)) := by
  have hstart : ¬ mtypePrefix <+: (Value.object (envelope cmdtype sequence req)).dump := by
    rintro ⟨t, ht⟩
    rw [envelope, Value.dump, dumpMembers] at ht
    have hthird : some (Ascii.letter 'm') = some (Ascii.letter 'c') := congrArg (fun l => l[2]?) ht
    exact absurd (Option.some.inj hthird) (by decide)
  rw [requestAbi_envelope]
  obtain ⟨c, -, hwrap, hparse⟩ := wrapCtrlAbi_dump (envelope_writable hcmd sequence hreq) (by simp [envelope]) hstart
  rw [hwrap, hparse]

/-! ## What is read -/

theorem asInt_count {n : Nat} (h : n ≤ 2 ^ 53) (d : Int) : (count n).asInt d = n := by
  rw [count, Binary64.ofNat_representable (Binary64.representable_of_le h), Value.asInt]
  exact_mod_cast toInt64_exact (exact_of_le (n := (n : Int)) (by omega))

/-- A member of the envelope behind the casts. -/
theorem wireMember_count {wire : Bytes} {o : Object} (hp : parse wire = .ok (.object o)) {key : String}
    (hkey : isWord (ascii key) = true) {n : Nat}
    (hn : lookup o (ascii key) = some (count n)) (hle : n ≤ 2 ^ 53) : wireMember key wire = toInt n := by
  simp only [wireMember, hp, find_word hkey, Value.asObject, hn, Option.getD_some, asInt_count hle]

/-- The casts to `int` and back leave a sequence as it was. -/
theorem ofInt_toInt (n : UInt32) : UInt32.ofInt (toInt n.toNat) = n := by
  have hlt := n.toNat_lt
  have hmod : (toInt n.toNat % 2 ^ 32).toNat = n.toNat := by
    have hemod : toInt n.toNat % ((2 ^ 32 : Nat) : Int) = n.toNat % ((2 ^ 32 : Nat) : Int) := Int.bmod_emod
    omega
  rw [UInt32.ofInt, hmod, UInt32.ofNat_toNat]

theorem ofInt_natCast (n : UInt64) : UInt64.ofInt n.toNat = n := by
  have hlt := n.toNat_lt
  have hmod : ((n.toNat : Int) % 2 ^ 64).toNat = n.toNat := by omega
  rw [UInt64.ofInt, hmod, UInt64.ofNat_toNat]

theorem Request.find_wide (r : Request) {p : String × UInt64} (hp : p ∈ r.wide) :
    (Value.object (fields r.members)).find (ascii p.1) = count p.2.toNat := by
  have htotal : ∀ o : Object, (Value.object o).find (ascii "total") = (lookup o (ascii "total")).getD .null :=
    fun _ => find_word (by decide +kernel) _
  have hoffset : ∀ o : Object, (Value.object o).find (ascii "offset") = (lookup o (ascii "offset")).getD .null :=
    fun _ => find_word (by decide +kernel) _
  cases r with
  | fileUploadInit destStorage _ _ =>
      obtain rfl := List.mem_singleton.mp hp
      simp only [htotal, members, unlessEmpty]
      split_ifs <;> simp +decide [fields, lookup_assign]
  | fileUploadChunk _ _ _ fileMd5Lower =>
      obtain rfl := List.mem_singleton.mp hp
      simp only [hoffset, members, unlessEmpty]
      split_ifs <;> simp +decide [fields, lookup_assign]
  | fileDownload _ _ targetPath =>
      obtain rfl := List.mem_singleton.mp hp
      simp only [hoffset, members, unlessEmpty]
      split_ifs <;> simp +decide [fields, lookup_assign]
  | _ => cases hp

/-- Every request is recognised by its own `cmdtype` and sequence and by no other, and a total or an offset
that a double holds is read as it was. -/
theorem request_recognised (r : Request) (sequence : UInt32) :
    parseWireCmdtype (wrapCtrlAbi (r.abi sequence)) = r.cmdtype ∧
      (∀ want, UInt32.ofInt (parseWireSequence (wrapCtrlAbi (r.abi sequence))) = want ↔ want = sequence) ∧
      (∀ cmdtype want, accepts cmdtype want (wrapCtrlAbi (r.abi sequence)) = true ↔
        cmdtype = r.cmdtype ∧ (want = 0 ∨ want = sequence)) ∧
      ∃ root, parse (wrapCtrlAbi (r.abi sequence)) = .ok root ∧
        ∀ p ∈ r.wide, p.2.toNat ≤ 2 ^ 53 →
          UInt64.ofInt (((root.find (ascii "req")).find (ascii p.1)).asInt 0) = p.2 := by
  have hcmd : r.cmdtype < 2 ^ 31 := by
    cases r <;> simp only [Request.cmdtype] <;> decide
  have hreq := writable_fields r.members_writable
  have hp := parse_wrapped_request (hcmd.trans (by decide)) sequence hreq
  rw [← r.abi_eq] at hp
  have hcmdtype : parseWireCmdtype (wrapCtrlAbi (r.abi sequence)) = r.cmdtype := by
    rw [parseWireCmdtype, wireMember_count hp (n := r.cmdtype) (by decide +kernel)
      (by simp +decide [envelope, lookup_assign, lookup_cons]) (by omega)]
    exact Int.bmod_eq_of_le (by omega) (by omega)
  have hsequence : parseWireSequence (wrapCtrlAbi (r.abi sequence)) = toInt sequence.toNat :=
    wireMember_count hp (by decide +kernel)
      (by simp +decide [envelope, lookup_assign, lookup_cons]) (by have := sequence.toNat_lt; omega)
  have hfind : (Value.object (assign (envelope r.cmdtype sequence (fields r.members)) mtypeKey mtypeValue)).find
      (ascii "req") = .object (fields r.members) := by
    rw [find_word (by decide +kernel)]
    simp +decide [envelope, lookup_assign, lookup_cons, Value.asObject]
  refine ⟨hcmdtype, fun want => ?_, fun cmdtype want => ?_, _, hp, fun p hmem hle => ?_⟩
  · rw [hsequence, ofInt_toInt]
    exact eq_comm
  · rw [accepts, hcmdtype, hsequence, ofInt_toInt]
    simp only [Bool.and_eq_true, Bool.or_eq_true, decide_eq_true_eq, Nat.cast_inj]
    exact and_congr eq_comm (or_congr_right eq_comm)
  · rw [hfind, r.find_wide hmem, asInt_count hle]
    exact ofInt_natCast p.2

end OpenBambu.Upload
