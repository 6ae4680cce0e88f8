import OpenBambu.Print.Message

/-!
# The name of an upload

`pick_remote_name` makes the name under which a print file is stored from what the user has typed. It is a
plain file name whatever that was, and a name that was picked once is picked again as it is.
-/

namespace OpenBambu.Print

open OpenBambu.Foundation

/-! ## Plain names -/

/-- No byte of the name is a control byte or a separator, and it starts with neither a dot nor a blank. -/
structure PlainName (name : Bytes) : Prop where
  bytes : ∀ b ∈ name, 0x20 ≤ b ∧ b ≠ Ascii.slash ∧ b ≠ Ascii.backslash
  front : ∀ b ∈ name.head?, b ≠ Ascii.dot ∧ b ≠ Ascii.sp

theorem isSlash_iff {b : Byte} : isSlash b = true ↔ b = Ascii.slash ∨ b = Ascii.backslash := by
  simp [isSlash]

theorem PlainName.of_front {name front : Bytes} (h : PlainName name) (hfront : front <+: name) :
    PlainName front where
  bytes b hb := h.bytes b (hfront.subset hb)
  front b hb := by
    obtain ⟨rest, rfl⟩ := hfront
    cases front with
    | nil => cases hb
    | cons c front => exact h.front b hb

theorem PlainName.append {name ext : Bytes} (h : PlainName name) (hne : name ≠ [])
    (hext : ∀ b ∈ ext, 0x20 ≤ b ∧ b ≠ Ascii.slash ∧ b ≠ Ascii.backslash) : PlainName (name ++ ext) where
  bytes := List.forall_mem_append.mpr ⟨h.bytes, hext⟩
  front b hb := by
    rw [List.head?_append_of_ne_nil _ hne] at hb
    exact h.front b hb

/-- What `sanitize_remote_name` trims is not in front any more, and what it replaces is nowhere. -/
theorem plainName_sanitize (name : Bytes) : PlainName (sanitizeRemoteName name) where
  bytes b hb := by
    obtain ⟨c, -, rfl⟩ := List.mem_map.mp hb
    split_ifs with hc
    · decide
    · simp only [Bool.or_eq_true, decide_eq_true_eq, isSlash_iff, not_or, UInt8.not_lt] at hc
      exact hc
  front b hb := by
    have htrim := head_dropWhile (fun b => b = Ascii.dot || isSlash b || b = Ascii.sp) name
    obtain ⟨rest, hrest⟩ := List.rdropWhile_prefix (fun b => b = Ascii.sp || b = Ascii.dot)
      (l := name.dropWhile fun b => b = Ascii.dot || isSlash b || b = Ascii.sp)
    rw [sanitizeRemoteName] at hb
    simp only [List.head?_map, Option.mem_def, Option.map_eq_some_iff] at hb
    obtain ⟨c, hc, rfl⟩ := hb
    have hfront := htrim c (by
      rw [← hrest]
      exact List.mem_head?_append_of_mem_head? hc)
    simp only [Bool.or_eq_false_iff, decide_eq_false_iff_not] at hfront
    split_ifs
    · decide
    · exact ⟨hfront.1.1, hfront.2⟩

/-- A plain name that ends in neither a blank nor a dot is left as it is. -/
theorem PlainName.sanitize {name : Bytes} (h : PlainName name)
    (hlast : ∀ b ∈ name.getLast?, b ≠ Ascii.sp ∧ b ≠ Ascii.dot) : sanitizeRemoteName name = name := by
  have hfront : name.dropWhile (fun b => b = Ascii.dot || isSlash b || b = Ascii.sp) = name := by
    refine dropWhile_head fun c hc => ?_
    have hsep := (h.bytes c (List.mem_of_mem_head? hc)).2
    simp [h.front c hc, isSlash, hsep]
  have hback : name.rdropWhile (fun b => b = Ascii.sp || b = Ascii.dot) = name := by
    refine List.rdropWhile_eq_self_iff.mpr fun hne => ?_
    have hend := hlast _ (List.getLast?_eq_some_getLast hne)
    simp [hend]
  have hbytes : name.map (fun b => if b < 0x20 || isSlash b then 0x5f else b) = name := by
    refine (List.map_congr_left fun b hb => ?_).trans (List.map_id name)
    obtain ⟨hcontrol, hsep⟩ := h.bytes b hb
    simp [isSlash, hsep, UInt8.not_lt.mpr hcontrol]
  rw [sanitizeRemoteName]
  simp only [hfront, hback, hbytes]

/-! ## Extensions -/

theorem strip3mfExtension_front (name : Bytes) : strip3mfExtension name <+: name := by
  unfold strip3mfExtension
  split_ifs
  · exact List.take_prefix _ _
  · exact List.take_prefix _ _
  · exact List.prefix_rfl

theorem strip3mfExtension_gcode (stem : Bytes) : strip3mfExtension (stem ++ ascii ".gcode.3mf") = stem := by
  have hends : endsWith (stem ++ ascii ".gcode.3mf") (ascii ".gcode.3mf") = true := by
    rw [endsWith, List.reverse_append]
    exact startsWith_append _ _
  have hlen : (ascii ".gcode.3mf").length = 10 := by decide
  rw [strip3mfExtension, if_pos hends, List.rdrop, List.length_append, hlen, Nat.add_sub_cancel,
    List.take_left]

theorem gcodeExtension_bytes :
    ∀ b ∈ ascii ".gcode.3mf", 0x20 ≤ b ∧ b ≠ Ascii.slash ∧ b ≠ Ascii.backslash := by
  decide +kernel

/-! ## The name -/

/-- The sanitized project or task name without its extension. -/
def stem (p : PrintParams) : Bytes :=
  strip3mfExtension (sanitizeRemoteName (if p.projectName = [] then p.taskName else p.projectName))

theorem pickRemoteName_eq (p : PrintParams) :
    pickRemoteName p = if stem p ≠ [] then stem p ++ ascii ".gcode.3mf"
      else if sanitizeRemoteName (basenameOf p.filename) ≠ [] then sanitizeRemoteName (basenameOf p.filename)
      else ascii "print.gcode.3mf" := rfl

theorem plainName_stem (p : PrintParams) : PlainName (stem p) :=
  (plainName_sanitize _).of_front (strip3mfExtension_front _)

theorem plainName_pick (p : PrintParams) : pickRemoteName p ≠ [] ∧ PlainName (pickRemoteName p) := by
  rw [pickRemoteName_eq]
  split_ifs with hstem hname
  · exact ⟨List.append_ne_nil_of_left_ne_nil hstem _, (plainName_stem p).append hstem gcodeExtension_bytes⟩
  · exact ⟨hname, plainName_sanitize _⟩
  · exact ⟨by decide, by decide +kernel, by decide +kernel⟩

/-- A name with a stem is its own stem with the extension. -/
theorem stem_of_project {p q : PrintParams} (hstem : stem p ≠ []) (hq : q.projectName = pickRemoteName p) :
    stem q = stem p := by
  have hplain := (plainName_stem p).append hstem gcodeExtension_bytes
  have hname : pickRemoteName p = stem p ++ ascii ".gcode.3mf" := by rw [pickRemoteName_eq, if_pos hstem]
  have hlast : ∀ b ∈ (stem p ++ ascii ".gcode.3mf").getLast?, b ≠ Ascii.sp ∧ b ≠ Ascii.dot := by
    rw [List.getLast?_append_of_ne_nil _ (by decide)]
    decide +kernel
  have hne : stem p ++ ascii ".gcode.3mf" ≠ [] := List.append_ne_nil_of_left_ne_nil hstem _
  rw [stem, hq, hname, if_neg hne, hplain.sanitize hlast, strip3mfExtension_gcode]

/-- The directory that `ftp_folder` means: from the root, and closed by a slash. -/
def chosenFolder (ftpFolder : Bytes) : Bytes :=
  let closed := if ftpFolder ≠ [] ∧ ftpFolder.getLast? ≠ some Ascii.slash then ftpFolder ++ [Ascii.slash] else ftpFolder
  if closed.head? = some Ascii.slash then closed else Ascii.slash :: closed

/-- The name is a plain file name, and the path of the upload is that name in the chosen folder; with a
stem it has the full extension and stays as it is when it is used as the name of a project. -/
structure RemoteNameLaw (p : PrintParams) : Prop where
  nonempty : pickRemoteName p ≠ []
  plain : PlainName (pickRemoteName p)
  folder : remotePath p = chosenFolder p.ftpFolder ++ pickRemoteName p
  closed : (chosenFolder p.ftpFolder).getLast? = some Ascii.slash
  extension : stem p ≠ [] → ascii ".gcode.3mf" <:+ pickRemoteName p
  fixed : stem p ≠ [] → ∀ q : PrintParams, q.projectName = pickRemoteName p →
    pickRemoteName q = pickRemoteName p

theorem chosenFolder_closed (ftpFolder : Bytes) : (chosenFolder ftpFolder).getLast? = some Ascii.slash := by
  unfold chosenFolder
  simp only
  generalize hclosed : (if ftpFolder ≠ [] ∧ ftpFolder.getLast? ≠ some Ascii.slash then
    ftpFolder ++ [Ascii.slash] else ftpFolder) = closed
  have hlast : closed = [] ∨ closed.getLast? = some Ascii.slash := by
    rw [← hclosed]
    split_ifs with h
    · exact .inr List.getLast?_concat
    · rw [not_and_or, not_not, not_not] at h
      exact h
  split_ifs with hfront
  · refine hlast.resolve_left fun hnil => ?_
    rw [hnil] at hfront
    cases hfront
  · rw [List.getLast?_cons]
    rcases hlast with hnil | hlast
    · rw [hnil]; rfl
    · rw [hlast]; rfl

/-- The slash in front of the folder is there once, whether `ftp_folder` has one or not. -/
theorem remotePath_folder (p : PrintParams) : remotePath p = chosenFolder p.ftpFolder ++ pickRemoteName p := by
  unfold remotePath chosenFolder
  simp only
  generalize (if p.ftpFolder ≠ [] ∧ p.ftpFolder.getLast? ≠ some Ascii.slash then
    p.ftpFolder ++ [Ascii.slash] else p.ftpFolder) = closed
  cases closed with
  | nil => rfl
  | cons c rest =>
      simp only [ne_eq, reduceCtorEq, not_false_eq_true, true_and, List.head?_cons, Option.some.injEq,
        List.tail_cons]
      split_ifs with hfront
      · rw [hfront]
        rfl
      · rfl

theorem pickRemoteName_law (p : PrintParams) : RemoteNameLaw p where
  nonempty := (plainName_pick p).1
  plain := (plainName_pick p).2
  folder := remotePath_folder p
  closed := chosenFolder_closed p.ftpFolder
  extension hstem := by
    rw [pickRemoteName_eq, if_pos hstem]
    exact List.suffix_append _ _
  fixed hstem q hq := by
    rw [pickRemoteName_eq q, stem_of_project hstem hq, if_pos hstem, pickRemoteName_eq p, if_pos hstem]

end OpenBambu.Print
