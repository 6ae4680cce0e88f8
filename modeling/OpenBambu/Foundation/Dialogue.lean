import Mathlib.Data.List.Basic

/-!
# Programs that ask their surroundings

A program is the tree of the calls it makes, with what it does behind each answer. Nothing is said of the
answers: what holds of all its runs holds whatever surrounds it.
-/

namespace OpenBambu.Foundation

inductive Dialogue (Call : Type) (Answer : Call → Type) (α : Type) where
  | done (a : α)
  | ask (c : Call) (next : Answer c → Dialogue Call Answer α)

namespace Dialogue

variable {Call : Type} {Answer : Call → Type} {α β ε : Type}

/-- A call with its answer. -/
abbrev Exchange (Answer : Call → Type) := (c : Call) × Answer c

protected def bind : Dialogue Call Answer α → (α → Dialogue Call Answer β) → Dialogue Call Answer β
  | done a, f => f a
  | ask c next, f => ask c fun ans => (next ans).bind f

instance : Monad (Dialogue Call Answer) where
  pure := done
  bind := Dialogue.bind

def call (c : Call) : Dialogue Call Answer (Answer c) := ask c done

/-! ## Runs -/

/-- A run that comes to its end: what it has exchanged, and its result. -/
inductive Runs : Dialogue Call Answer α → List (Exchange Answer) → α → Prop
  | done (a : α) : Runs (done a) [] a
  | ask {c : Call} {next : Answer c → Dialogue Call Answer α} {ans : Answer c} {t : List (Exchange Answer)}
      {a : α} (h : Runs (next ans) t a) : Runs (ask c next) (⟨c, ans⟩ :: t) a

/-- What a run has exchanged at some moment of it. -/
inductive Exchanges : Dialogue Call Answer α → List (Exchange Answer) → Prop
  | nil (d : Dialogue Call Answer α) : Exchanges d []
  | ask {c : Call} {next : Answer c → Dialogue Call Answer α} {ans : Answer c} {t : List (Exchange Answer)}
      (h : Exchanges (next ans) t) : Exchanges (ask c next) (⟨c, ans⟩ :: t)

/-- The run in surroundings that answer by what has been exchanged. -/
def run (surroundings : List (Exchange Answer) → (c : Call) → Answer c) (past : List (Exchange Answer)) :
    Dialogue Call Answer α → List (Exchange Answer) × α
  | done a => ([], a)
  | ask c next =>
      let ans := surroundings past c
      let rest := run surroundings (past ++ [⟨c, ans⟩]) (next ans)
      (⟨c, ans⟩ :: rest.1, rest.2)

theorem runs_run (surroundings : List (Exchange Answer) → (c : Call) → Answer c)
    (past : List (Exchange Answer)) (d : Dialogue Call Answer α) :
    Runs d (run surroundings past d).1 (run surroundings past d).2 := by
  induction d generalizing past with
  | done a => exact .done a
  | ask c next ih => exact .ask (ih _ _)

@[simp] theorem runs_pure {a b : α} {t : List (Exchange Answer)} :
    Runs (pure a : Dialogue Call Answer α) t b ↔ t = [] ∧ b = a := by
  constructor
  · intro h
    cases h
    exact ⟨rfl, rfl⟩
  · rintro ⟨rfl, rfl⟩
    exact .done b

/-- A run of two programs one after the other is a run of the first and one of the second. -/
theorem runs_bind {d : Dialogue Call Answer α} {f : α → Dialogue Call Answer β} {t : List (Exchange Answer)}
    {b : β} : Runs (d >>= f) t b ↔ ∃ a t₁ t₂, Runs d t₁ a ∧ Runs (f a) t₂ b ∧ t = t₁ ++ t₂ := by
  constructor
  · intro h
    induction d generalizing t with
    | done a => exact ⟨a, [], t, .done a, h, rfl⟩
    | ask c next ih =>
        cases h with
        | @ask _ _ ans t _ h =>
            obtain ⟨a, t₁, t₂, h₁, h₂, rfl⟩ := ih ans h
            exact ⟨a, ⟨c, ans⟩ :: t₁, t₂, .ask h₁, h₂, rfl⟩
  · rintro ⟨a, t₁, t₂, h₁, h₂, rfl⟩
    induction h₁ with
    | done a => exact h₂
    | ask _ ih => exact .ask (ih h₂)

theorem Runs.exchanges {d : Dialogue Call Answer α} {t : List (Exchange Answer)} {a : α} (h : Runs d t a) :
    Exchanges d t := by
  induction h with
  | done a => exact .nil _
  | ask _ ih => exact .ask ih

/-- Surroundings that answer every call bring a run to its end. -/
theorem Exchanges.runs [∀ c, Nonempty (Answer c)] {d : Dialogue Call Answer α} {t : List (Exchange Answer)}
    (h : Exchanges d t) : ∃ rest a, Runs d (t ++ rest) a := by
  induction h with
  | nil d =>
      have ⟨surroundings⟩ : Nonempty ((c : Call) → Answer c) := inferInstance
      exact ⟨_, _, runs_run (fun _ => surroundings) [] d⟩
  | ask _ ih =>
      obtain ⟨rest, a, h⟩ := ih
      exact ⟨rest, a, .ask h⟩

/-! ## Programs that may give up -/

/-- A program that may give up with a code. -/
abbrev Job (Call : Type) (Answer : Call → Type) (ε α : Type) := ExceptT ε (Dialogue Call Answer) α

namespace Job

variable {x : Job Call Answer ε α} {t : List (Exchange Answer)} {r : Except ε α}

def ask (c : Call) : Job Call Answer ε (Answer c) := ExceptT.lift (call c)

/-- A run of the job. -/
def Runs (x : Job Call Answer ε α) (t : List (Exchange Answer)) (r : Except ε α) : Prop := Dialogue.Runs x.run t r

@[simp] theorem runs_pure {a : α} : Runs (pure a : Job Call Answer ε α) t r ↔ t = [] ∧ r = .ok a :=
  Dialogue.runs_pure

@[simp] theorem runs_throw {e : ε} : Runs (throw e : Job Call Answer ε α) t r ↔ t = [] ∧ r = .error e :=
  Dialogue.runs_pure

@[simp] theorem runs_ask {c : Call} {r : Except ε (Answer c)} :
    Runs (ask c : Job Call Answer ε (Answer c)) t r ↔ ∃ ans, t = [⟨c, ans⟩] ∧ r = .ok ans := by
  constructor
  · intro h
    cases h with
    | ask h =>
        cases h
        exact ⟨_, rfl, rfl⟩
  · rintro ⟨ans, rfl, rfl⟩
    exact .ask (.done _)

/-- A run of two jobs one after the other ends in the first, or goes on with the second. -/
theorem runs_bind {f : α → Job Call Answer ε β} {r : Except ε β} :
    Runs (x >>= f) t r ↔ (∃ e, Runs x t (.error e) ∧ r = .error e) ∨
      ∃ a t₁ t₂, Runs x t₁ (.ok a) ∧ Runs (f a) t₂ r ∧ t = t₁ ++ t₂ := by
  have hbind : Runs (x >>= f) t r ↔ Dialogue.Runs (x.run >>= ExceptT.bindCont f) t r := Iff.rfl
  rw [hbind, Dialogue.runs_bind]
  constructor
  · rintro ⟨a | a, t₁, t₂, h₁, h₂, rfl⟩
    · obtain ⟨rfl, rfl⟩ := Dialogue.runs_pure.mp h₂
      rw [List.append_nil]
      exact Or.inl ⟨a, h₁, rfl⟩
    · exact Or.inr ⟨a, t₁, t₂, h₁, h₂, rfl⟩
  · rintro (⟨e, h, rfl⟩ | ⟨a, t₁, t₂, h₁, h₂, rfl⟩)
    · exact ⟨.error e, t, [], h, Dialogue.runs_pure.mpr ⟨rfl, rfl⟩, (List.append_nil t).symm⟩
    · exact ⟨.ok a, t₁, t₂, h₁, h₂, rfl⟩

theorem run_tryCatch (h : ε → Job Call Answer ε α) : (tryCatch x h).run = x.run >>= fun res =>
    match res with
    | .ok a => pure (.ok a)
    | .error e => (h e).run := by
  show x.run >>= _ = x.run >>= _
  refine bind_congr fun res => ?_
  cases res with
  | ok a => rfl
  | error e => rfl

/-- A run behind an error goes on with what catches it. -/
theorem runs_tryCatch {h : ε → Job Call Answer ε α} :
    Runs (tryCatch x h) t r ↔ (∃ a, Runs x t (.ok a) ∧ r = .ok a) ∨
      ∃ e t₁ t₂, Runs x t₁ (.error e) ∧ Runs (h e) t₂ r ∧ t = t₁ ++ t₂ := by
  rw [Runs, run_tryCatch, Dialogue.runs_bind]
  constructor
  · rintro ⟨e | a, t₁, t₂, h₁, h₂, rfl⟩
    · exact Or.inr ⟨e, t₁, t₂, h₁, h₂, rfl⟩
    · obtain ⟨rfl, rfl⟩ := Dialogue.runs_pure.mp h₂
      rw [List.append_nil]
      exact Or.inl ⟨a, h₁, rfl⟩
  · rintro (⟨a, h, rfl⟩ | ⟨e, t₁, t₂, h₁, h₂, rfl⟩)
    · exact ⟨.ok a, t, [], h, Dialogue.runs_pure.mpr ⟨rfl, rfl⟩, (List.append_nil t).symm⟩
    · exact ⟨.error e, t₁, t₂, h₁, h₂, rfl⟩

theorem runs_ask_bind {c : Call} {f : Answer c → Job Call Answer ε β} {r : Except ε β} :
    Runs (ask c >>= f) t r ↔ ∃ ans rest, Runs (f ans) rest r ∧ t = ⟨c, ans⟩ :: rest := by
  rw [runs_bind]
  constructor
  · rintro (⟨e, h, rfl⟩ | ⟨a, t₁, t₂, h₁, h₂, rfl⟩)
    · obtain ⟨ans, -, hans⟩ := runs_ask.mp h
      exact nomatch hans
    · obtain ⟨ans, rfl, hans⟩ := runs_ask.mp h₁
      obtain rfl := Except.ok.inj hans
      exact ⟨a, t₂, h₂, rfl⟩
  · rintro ⟨ans, rest, h, rfl⟩
    exact Or.inr ⟨ans, [⟨c, ans⟩], rest, runs_ask.mpr ⟨ans, rfl, rfl⟩, h, rfl⟩

end Job

/-! ## Scripts -/

/-- A call of a script, and the answers behind which the script goes on. -/
structure Cue (Answer : Call → Type) where
  call : Call
  accepts : Answer call → Prop

/-- The script from its start to its end, each answer accepted. -/
inductive Completes : List (Cue Answer) → List (Exchange Answer) → Prop
  | nil : Completes [] []
  | cons {q : Cue Answer} {ans : Answer q.call} {script : List (Cue Answer)} {t : List (Exchange Answer)}
      (h : q.accepts ans) (rest : Completes script t) : Completes (q :: script) (⟨q.call, ans⟩ :: t)

/-- The script from its start on. Only the last answer may be one that the script does not accept. -/
inductive Conforms : List (Cue Answer) → List (Exchange Answer) → Prop
  | nil (script : List (Cue Answer)) : Conforms script []
  | last (q : Cue Answer) (ans : Answer q.call) (script : List (Cue Answer)) :
      Conforms (q :: script) [⟨q.call, ans⟩]
  | cons {q : Cue Answer} {ans : Answer q.call} {script : List (Cue Answer)} {t : List (Exchange Answer)}
      (h : q.accepts ans) (rest : Conforms script t) : Conforms (q :: script) (⟨q.call, ans⟩ :: t)

variable {script script' : List (Cue Answer)} {t t' : List (Exchange Answer)}

theorem Completes.append (h : Completes script t) (h' : Completes script' t') :
    Completes (script ++ script') (t ++ t') := by
  induction h with
  | nil => exact h'
  | cons hq _ ih => exact .cons hq ih

theorem Completes.conforms (h : Completes script t) (h' : Conforms script' t') :
    Conforms (script ++ script') (t ++ t') := by
  induction h with
  | nil => exact h'
  | cons hq _ ih => exact .cons hq ih

theorem Conforms.extend (h : Conforms script t) (more : List (Cue Answer)) : Conforms (script ++ more) t := by
  induction h with
  | nil script => exact .nil _
  | last q ans script => exact .last q ans _
  | cons hq _ ih => exact .cons hq ih

/-- At an earlier moment. -/
theorem Conforms.earlier (h : Conforms script t) (ht : t' <+: t) : Conforms script t' := by
  induction h generalizing t' with
  | nil script =>
      obtain rfl := List.prefix_nil.mp ht
      exact .nil script
  | last q ans script =>
      rcases List.prefix_cons_iff.mp ht with rfl | ⟨rest, rfl, hrest⟩
      · exact .nil _
      · obtain rfl := List.prefix_nil.mp hrest
        exact .last q ans script
  | cons hq _ ih =>
      rcases List.prefix_cons_iff.mp ht with rfl | ⟨rest, rfl, hrest⟩
      · exact .nil _
      · exact .cons hq (ih hrest)

/-- Only calls of the script are made. -/
theorem Conforms.call_mem (h : Conforms script t) {x : Exchange Answer} (hx : x ∈ t) :
    ∃ q ∈ script, x.1 = q.call := by
  induction h with
  | nil script => exact absurd hx List.not_mem_nil
  | last q ans script => exact ⟨q, List.mem_cons_self, by rw [List.mem_singleton.mp hx]⟩
  | cons _ _ ih =>
      rcases List.mem_cons.mp hx with rfl | hx
      · exact ⟨_, List.mem_cons_self, rfl⟩
      · obtain ⟨q, hq, hcall⟩ := ih hx
        exact ⟨q, List.mem_cons_of_mem _ hq, hcall⟩

/-- The last call of a script is made behind all the others, or not yet. -/
theorem Conforms.final {q : Cue Answer} (h : Conforms (script ++ [q]) t) :
    Conforms script t ∨ ∃ front ans, t = front ++ [⟨q.call, ans⟩] ∧ Completes script front := by
  induction script generalizing t with
  | nil =>
      cases h with
      | nil => exact Or.inl (.nil _)
      | last _ ans => exact Or.inr ⟨[], ans, rfl, .nil⟩
      | @cons _ ans _ t hq hrest =>
          cases hrest
          exact Or.inr ⟨[], ans, rfl, .nil⟩
  | cons p script ih =>
      cases h with
      | nil => exact Or.inl (.nil _)
      | last _ ans => exact Or.inl (.last _ ans _)
      | @cons _ ans _ t hq hrest =>
          rcases ih hrest with hin | ⟨front, last, rfl, hfront⟩
          · exact Or.inl (.cons hq hin)
          · exact Or.inr ⟨⟨p.call, ans⟩ :: front, last, rfl, .cons hq hfront⟩

/-! ## The calls that are looked at -/

section Watched

variable (seen : Call → Bool)

/-- The exchanges of the calls that a statement is about. -/
def watched (t : List (Exchange Answer)) : List (Exchange Answer) := t.filter fun x => seen x.1

theorem watched_append (t t' : List (Exchange Answer)) :
    watched seen (t ++ t') = watched seen t ++ watched seen t' := List.filter_append ..

variable {seen}

theorem watched_cons {c : Call} (ans : Answer c) (t : List (Exchange Answer)) :
    watched seen (⟨c, ans⟩ :: t) = if seen c = true then ⟨c, ans⟩ :: watched seen t else watched seen t :=
  List.filter_cons

theorem watched_unseen {c : Call} (hc : seen c = false) (ans : Answer c) (t : List (Exchange Answer)) :
    watched seen (⟨c, ans⟩ :: t) = watched seen t := by
  rw [watched_cons, hc, if_neg Bool.false_ne_true]

end Watched

/-! ## What a job exchanges -/

section Meets

variable (seen : Call → Bool)

/-- The runs of a job end in a result with exchanges that are good for it, or in an error with exchanges
that go with it. -/
structure Meets (x : Job Call Answer ε α) (good : α → List (Exchange Answer) → Prop)
    (bad : ε → List (Exchange Answer) → Prop) : Prop where
  returns : ∀ t a, x.Runs t (.ok a) → good a (watched seen t)
  fails : ∀ t e, x.Runs t (.error e) → bad e (watched seen t)

variable {seen} {x : Job Call Answer ε α} {good : α → List (Exchange Answer) → Prop}
variable {bad : ε → List (Exchange Answer) → Prop}

theorem Meets.mono {good' : α → List (Exchange Answer) → Prop} {bad' : ε → List (Exchange Answer) → Prop}
    (h : Meets seen x good bad) (hgood : ∀ a s, good a s → good' a s) (hbad : ∀ e s, bad e s → bad' e s) :
    Meets seen x good' bad' where
  returns t a ht := hgood a _ (h.returns t a ht)
  fails t e ht := hbad e _ (h.fails t e ht)

theorem meets_pure {a : α} (h : good a []) : Meets seen (pure a : Job Call Answer ε α) good bad where
  returns t b ht := by
    obtain ⟨rfl, hb⟩ := Job.runs_pure.mp ht
    obtain rfl := Except.ok.inj hb
    exact h
  fails t e ht := nomatch (Job.runs_pure.mp ht).2

theorem meets_throw {e : ε} (h : bad e []) : Meets seen (throw e : Job Call Answer ε α) good bad where
  returns t b ht := nomatch (Job.runs_throw.mp ht).2
  fails t e' ht := by
    obtain ⟨rfl, he⟩ := Job.runs_throw.mp ht
    obtain rfl := Except.error.inj he
    exact h

/-- One job after the other exchanges what the first does and then what the second does. -/
theorem meets_bind {f : α → Job Call Answer ε β} {first : α → List (Exchange Answer) → Prop}
    {good : β → List (Exchange Answer) → Prop} (hx : Meets seen x first bad)
    (hf : ∀ a s, first a s → Meets seen (f a) (fun b s' => good b (s ++ s')) fun e s' => bad e (s ++ s')) :
    Meets seen (x >>= f) good bad where
  returns t b ht := by
    rcases Job.runs_bind.mp ht with ⟨e, -, he⟩ | ⟨a, t₁, t₂, h₁, h₂, rfl⟩
    · exact nomatch he
    · exact watched_append seen t₁ t₂ ▸ (hf a _ (hx.returns t₁ a h₁)).returns t₂ b h₂
  fails t e ht := by
    rcases Job.runs_bind.mp ht with ⟨e', h₁, he⟩ | ⟨a, t₁, t₂, h₁, h₂, rfl⟩
    · obtain rfl := Except.error.inj he
      exact hx.fails t e h₁
    · exact watched_append seen t₁ t₂ ▸ (hf a _ (hx.returns t₁ a h₁)).fails t₂ e h₂

theorem meets_ask {c : Call} {f : Answer c → Job Call Answer ε α} (hc : seen c = true)
    (hf : ∀ ans, Meets seen (f ans) (fun a s => good a (⟨c, ans⟩ :: s)) fun e s => bad e (⟨c, ans⟩ :: s)) :
    Meets seen (Job.ask c >>= f) good bad where
  returns t a ht := by
    obtain ⟨ans, rest, hrest, rfl⟩ := Job.runs_ask_bind.mp ht
    rw [watched_cons, if_pos hc]
    exact (hf ans).returns rest a hrest
  fails t e ht := by
    obtain ⟨ans, rest, hrest, rfl⟩ := Job.runs_ask_bind.mp ht
    rw [watched_cons, if_pos hc]
    exact (hf ans).fails rest e hrest

theorem meets_unseen {c : Call} {f : Answer c → Job Call Answer ε α} (hc : seen c = false)
    (hf : ∀ ans, Meets seen (f ans) good bad) : Meets seen (Job.ask c >>= f) good bad where
  returns t a ht := by
    obtain ⟨ans, rest, hrest, rfl⟩ := Job.runs_ask_bind.mp ht
    exact watched_unseen hc ans rest ▸ (hf ans).returns rest a hrest
  fails t e ht := by
    obtain ⟨ans, rest, hrest, rfl⟩ := Job.runs_ask_bind.mp ht
    exact watched_unseen hc ans rest ▸ (hf ans).fails rest e hrest

theorem meets_aside {c : Call} {good : Answer c → List (Exchange Answer) → Prop} (hc : seen c = false)
    (h : ∀ ans, good ans []) : Meets seen (Job.ask c : Job Call Answer ε (Answer c)) good bad where
  returns t ans ht := by
    obtain ⟨ans', rfl, ha⟩ := Job.runs_ask.mp ht
    exact watched_unseen hc ans' [] ▸ h ans
  fails t e ht := by
    obtain ⟨ans, -, he⟩ := Job.runs_ask.mp ht
    exact nomatch he

theorem meets_tryCatch {h : ε → Job Call Answer ε α} {thrown : ε → List (Exchange Answer) → Prop}
    (hx : Meets seen x good thrown)
    (hh : ∀ e s, thrown e s → Meets seen (h e) (fun a s' => good a (s ++ s')) fun e' s' => bad e' (s ++ s')) :
    Meets seen (tryCatch x h) good bad where
  returns t a ht := by
    rcases Job.runs_tryCatch.mp ht with ⟨a', h₁, ha⟩ | ⟨e, t₁, t₂, h₁, h₂, rfl⟩
    · obtain rfl := Except.ok.inj ha
      exact hx.returns t a h₁
    · exact watched_append seen t₁ t₂ ▸ (hh e _ (hx.fails t₁ e h₁)).returns t₂ a h₂
  fails t e ht := by
    rcases Job.runs_tryCatch.mp ht with ⟨a, -, ha⟩ | ⟨e', t₁, t₂, h₁, h₂, rfl⟩
    · exact nomatch ha
    · exact watched_append seen t₁ t₂ ▸ (hh e' _ (hx.fails t₁ e' h₁)).fails t₂ e h₂

/-- What has been exchanged at a moment goes on to something good or to something bad. -/
theorem Meets.exchanges [∀ c, Nonempty (Answer c)] {t : List (Exchange Answer)} (h : Meets seen x good bad)
    (ht : Exchanges x.run t) : ∃ rest, (∃ a, good a (watched seen t ++ rest)) ∨ ∃ e, bad e (watched seen t ++ rest) := by
  obtain ⟨rest, r, hrun⟩ := ht.runs
  refine ⟨watched seen rest, ?_⟩
  rw [← watched_append]
  cases r with
  | error e => exact Or.inr ⟨e, h.fails _ e hrun⟩
  | ok a => exact Or.inl ⟨a, h.returns _ a hrun⟩

end Meets

/-! ## Jobs along a script -/

section Follows

variable (seen : Call → Bool)

/-- The runs of a job complete a script of the plan for their results, or they give up on the way along
one. There is a plan for some result. -/
structure Follows (x : Job Call Answer ε α) (plan : α → List (Cue Answer) → Prop) : Prop where
  plans : ∃ a script, plan a script
  completes : ∀ t a, x.Runs t (.ok a) → ∃ script, plan a script ∧ Completes script (watched seen t)
  conforms : ∀ t e, x.Runs t (.error e) → ∃ a script, plan a script ∧ Conforms script (watched seen t)

/-- A job that only gives up. -/
def Quits (x : Job Call Answer ε α) : Prop :=
  ∀ t r, x.Runs t r → watched seen t = [] ∧ ∃ e, r = .error e

variable {seen} {x : Job Call Answer ε α} {plan : α → List (Cue Answer) → Prop}

theorem Follows.mono {plan' : α → List (Cue Answer) → Prop} (h : Follows seen x plan)
    (hplan : ∀ a s, plan a s → plan' a s) : Follows seen x plan' where
  plans := by
    obtain ⟨a, s, hs⟩ := h.plans
    exact ⟨a, s, hplan a s hs⟩
  completes t a ht := by
    obtain ⟨s, hs, hcompletes⟩ := h.completes t a ht
    exact ⟨s, hplan a s hs, hcompletes⟩
  conforms t e ht := by
    obtain ⟨a, s, hs, hconforms⟩ := h.conforms t e ht
    exact ⟨a, s, hplan a s hs, hconforms⟩

theorem follows_pure {a : α} (h : plan a []) : Follows seen (pure a : Job Call Answer ε α) plan where
  plans := ⟨a, [], h⟩
  completes t b ht := by
    obtain ⟨rfl, hb⟩ := Job.runs_pure.mp ht
    obtain rfl := Except.ok.inj hb
    exact ⟨[], h, .nil⟩
  conforms t e ht := nomatch (Job.runs_pure.mp ht).2

theorem quits_throw (e : ε) : Quits seen (throw e : Job Call Answer ε α) := by
  intro t r ht
  obtain ⟨rfl, rfl⟩ := Job.runs_throw.mp ht
  exact ⟨rfl, e, rfl⟩

theorem Quits.follows (h : Quits seen x) (hplan : ∃ a s, plan a s) : Follows seen x plan where
  plans := hplan
  completes t a ht := by
    obtain ⟨-, e, he⟩ := h t _ ht
    exact nomatch he
  conforms t e ht := by
    obtain ⟨hquiet, -⟩ := h t _ ht
    obtain ⟨a, s, hs⟩ := hplan
    exact ⟨a, s, hs, hquiet ▸ .nil s⟩

/-- One job after the other, along one script after the other. -/
theorem follows_bind {f : α → Job Call Answer ε β} {first : α → List (Cue Answer) → Prop}
    {plan : β → List (Cue Answer) → Prop} (hx : Follows seen x first)
    (hf : ∀ a s, first a s → Follows seen (f a) fun b s' => plan b (s ++ s')) :
    Follows seen (x >>= f) plan where
  plans := by
    obtain ⟨a, s, hs⟩ := hx.plans
    obtain ⟨b, s', hs'⟩ := (hf a s hs).plans
    exact ⟨b, s ++ s', hs'⟩
  completes t b ht := by
    rcases Job.runs_bind.mp ht with ⟨e, -, he⟩ | ⟨a, t₁, t₂, h₁, h₂, rfl⟩
    · exact nomatch he
    · obtain ⟨s, hs, hcompletes⟩ := hx.completes t₁ a h₁
      obtain ⟨s', hs', hcompletes'⟩ := (hf a s hs).completes t₂ b h₂
      exact ⟨s ++ s', hs', watched_append seen t₁ t₂ ▸ hcompletes.append hcompletes'⟩
  conforms t e ht := by
    rcases Job.runs_bind.mp ht with ⟨e, he, -⟩ | ⟨a, t₁, t₂, h₁, h₂, rfl⟩
    · obtain ⟨a, s, hs, hconforms⟩ := hx.conforms t e he
      obtain ⟨b, s', hs'⟩ := (hf a s hs).plans
      exact ⟨b, s ++ s', hs', hconforms.extend s'⟩
    · obtain ⟨s, hs, hcompletes⟩ := hx.completes t₁ a h₁
      obtain ⟨b, s', hs', hconforms⟩ := (hf a s hs).conforms t₂ e h₂
      exact ⟨b, s ++ s', hs', watched_append seen t₁ t₂ ▸ hcompletes.conforms hconforms⟩

theorem quits_unseen {c : Call} {f : Answer c → Job Call Answer ε α} (hc : seen c = false)
    (hf : ∀ ans, Quits seen (f ans)) : Quits seen (Job.ask c >>= f) := by
  intro t r ht
  obtain ⟨ans, rest, hrest, rfl⟩ := Job.runs_ask_bind.mp ht
  rw [watched_unseen hc]
  exact hf ans rest r hrest

/-- Behind one of the calls the job goes on along the script, or gives up. -/
theorem follows_ask {c : Call} {f : Answer c → Job Call Answer ε α} (hc : seen c = true)
    (hf : ∀ ans, (∃ good, good ans ∧ Follows seen (f ans) fun a s => plan a (⟨c, good⟩ :: s)) ∨
      Quits seen (f ans))
    (hplan : ∃ a good s, plan a (⟨c, good⟩ :: s)) : Follows seen (Job.ask c >>= f) plan where
  plans := by
    obtain ⟨a, good, s, hs⟩ := hplan
    exact ⟨a, _, hs⟩
  completes t a ht := by
    obtain ⟨ans, rest, hrest, rfl⟩ := Job.runs_ask_bind.mp ht
    rcases hf ans with ⟨good, hans, hfollows⟩ | hquits
    · obtain ⟨s, hs, hcompletes⟩ := hfollows.completes rest a hrest
      rw [watched_cons, if_pos hc]
      exact ⟨_, hs, .cons (q := ⟨c, good⟩) hans hcompletes⟩
    · obtain ⟨-, e, he⟩ := hquits rest _ hrest
      exact nomatch he
  conforms t e ht := by
    obtain ⟨ans, rest, hrest, rfl⟩ := Job.runs_ask_bind.mp ht
    rw [watched_cons, if_pos hc]
    rcases hf ans with ⟨good, hans, hfollows⟩ | hquits
    · obtain ⟨a, s, hs, hconforms⟩ := hfollows.conforms rest e hrest
      exact ⟨a, _, hs, .cons (q := ⟨c, good⟩) hans hconforms⟩
    · obtain ⟨a, good, s, hs⟩ := hplan
      rw [(hquits rest _ hrest).1]
      exact ⟨a, _, hs, .last ⟨c, good⟩ ans s⟩

section Answered

variable [∀ c, Nonempty (Answer c)]

theorem follows_unseen {c : Call} {f : Answer c → Job Call Answer ε α} (hc : seen c = false)
    (hf : ∀ ans, Follows seen (f ans) plan) : Follows seen (Job.ask c >>= f) plan where
  plans := by
    have ⟨ans⟩ : Nonempty (Answer c) := inferInstance
    exact (hf ans).plans
  completes t a ht := by
    obtain ⟨ans, rest, hrest, rfl⟩ := Job.runs_ask_bind.mp ht
    exact watched_unseen hc ans rest ▸ (hf ans).completes rest a hrest
  conforms t e ht := by
    obtain ⟨ans, rest, hrest, rfl⟩ := Job.runs_ask_bind.mp ht
    exact watched_unseen hc ans rest ▸ (hf ans).conforms rest e hrest

theorem follows_aside {c : Call} {plan : Answer c → List (Cue Answer) → Prop} (hc : seen c = false)
    (h : ∀ ans, plan ans []) : Follows seen (Job.ask c : Job Call Answer ε (Answer c)) plan where
  plans := by
    have ⟨ans⟩ : Nonempty (Answer c) := inferInstance
    exact ⟨ans, [], h ans⟩
  completes t a ht := by
    obtain ⟨ans, rfl, ha⟩ := Job.runs_ask.mp ht
    exact ⟨[], h a, watched_unseen hc ans [] ▸ .nil⟩
  conforms t e ht := by
    obtain ⟨ans, -, he⟩ := Job.runs_ask.mp ht
    exact nomatch he

/-- A job that follows its plans does so at every moment. -/
theorem Follows.exchanges (h : Follows seen x plan) (ht : Exchanges x.run t) :
    ∃ a s, plan a s ∧ Conforms s (watched seen t) := by
  obtain ⟨rest, r, hrun⟩ := ht.runs
  have hearlier : watched seen t <+: watched seen (t ++ rest) :=
    watched_append seen t rest ▸ List.prefix_append _ _
  cases r with
  | error e =>
      obtain ⟨a, s, hs, hconforms⟩ := h.conforms _ e hrun
      exact ⟨a, s, hs, hconforms.earlier hearlier⟩
  | ok a =>
      obtain ⟨s, hs, hcompletes⟩ := h.completes _ a hrun
      have hconforms := hcompletes.conforms (.nil [])
      rw [List.append_nil, List.append_nil] at hconforms
      exact ⟨a, s, hs, hconforms.earlier hearlier⟩

end Answered

end Follows

end Dialogue

end OpenBambu.Foundation
