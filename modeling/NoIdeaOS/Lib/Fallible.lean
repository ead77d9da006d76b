import Mathlib.Logic.Basic

/-!
# Fallible computations

Code that may abort (a kernel panic) is modelled in `Except ε`: the value
`.error e` is the abort with payload `e`, and a computation that returns
`.ok a` ran to completion.  Nothing here is specific to one program.

* `expect o e` is `Option::expect`: the value inside `o`, or abort with `e`;
* `check c e` is `assert!`: continue when `c` holds, else abort with `e`.

The lemmas turn a successful run of a `do` block back into its parts:
`bind_eq_ok` peels one `←`, and `expect_eq_ok`, `check_eq_ok` say what a
successful `expect` or `check` has established, and `mapError_eq_ok` and
`mapError_eq_error` that relabelling the payload leaves a success alone and
relabels an abort; `eq_ok_of_toOption_map` reads a success off a computed
summary of a run.  `foldlM_range_succ` peels
the last round off a loop over `0 … n`, and `foldlM_of_forall` is the
rule for a loop: a predicate that every step keeps, and from which every step
succeeds, holds after the whole loop, which succeeds.  `foldlM_inv` is the
same rule read backwards: a loop that did succeed keeps what each of its
successful steps keeps.

`Avoids bad post x` says that `x` never aborts with a payload that `bad`
flags and that what it returns satisfies `post`.  It has the rules of a
program logic: `Avoids.bind` for a `←`, `avoids_expect` and `avoids_check`
for the two ways to abort (after a check, its condition holds), and
`avoids_foldlM` for a loop carried by an invariant.
-/

namespace Fallible

universe u v w

variable {ε : Type u} {α β : Type v}

/-- `Option::expect`: the value inside `o`, or abort with `e`. -/
def expect (o : Option α) (e : ε) : Except ε α :=
  match o with
  | some a => .ok a
  | none => .error e

/-- `assert!`: continue when `c` holds, else abort with `e`. -/
def check (c : Prop) [Decidable c] (e : ε) : Except ε PUnit :=
  if c then .ok ⟨⟩ else .error e

@[simp] theorem ok_bind (a : α) (f : α → Except ε β) :
    (Except.ok a >>= f) = f a := rfl

@[simp] theorem error_bind (e : ε) (f : α → Except ε β) :
    (Except.error e >>= f) = .error e := rfl

@[simp] theorem pure_eq_ok (a : α) : (pure a : Except ε α) = .ok a := rfl

/-- A successful bind is a successful first step followed by a successful rest. -/
theorem bind_eq_ok {x : Except ε α} {f : α → Except ε β} {b : β} :
    (x >>= f) = .ok b ↔ ∃ a, x = .ok a ∧ f a = .ok b := by
  cases x with
  | error e => simp
  | ok a => simp

/-- Keeping the second component of a successful result. -/
theorem map_snd_eq_ok {γ : Type v} {x : Except ε (α × γ)} {c : γ}
    (h : (x >>= fun r => pure r.2) = .ok c) : ∃ a, x = .ok (a, c) := by
  obtain ⟨⟨a, c'⟩, hx, hc⟩ := bind_eq_ok.mp h
  cases hc
  exact ⟨a, hx⟩

/-- A bind fails exactly when its first step fails or the rest fails. -/
theorem bind_eq_error {x : Except ε α} {f : α → Except ε β} {e : ε} :
    (x >>= f) = .error e ↔ x = .error e ∨ ∃ a, x = .ok a ∧ f a = .error e := by
  cases x with
  | error e' => simp
  | ok a => simp

/-- Relabelling the abort payload keeps a successful result as it is. -/
theorem mapError_eq_ok {ε' : Type u} {x : Except ε α} {f : ε → ε'} {a : α} :
    x.mapError f = .ok a ↔ x = .ok a := by
  cases x with
  | error e => exact ⟨fun h => (nomatch h), fun h => (nomatch h)⟩
  | ok b => exact ⟨fun h => congrArg Except.ok (Except.ok.inj h),
      fun h => congrArg Except.ok (Except.ok.inj h)⟩

/-- A relabelled abort is the relabelling of an abort. -/
theorem mapError_eq_error {ε' : Type u} {x : Except ε α} {f : ε → ε'} {e' : ε'} :
    x.mapError f = .error e' ↔ ∃ e, x = .error e ∧ f e = e' := by
  cases x with
  | error e => exact ⟨fun h => ⟨e, rfl, Except.error.inj h⟩,
      fun ⟨_, h, hf⟩ => by cases h; exact congrArg Except.error hf⟩
  | ok b => exact ⟨fun h => (nomatch h), fun ⟨_, h, _⟩ => (nomatch h)⟩

/-- A summary `f` of a run's result that comes out as `some b` says that the
run succeeded with a result summarised by `b`; `decide` can check such a
summary of a concrete run while comparing only the parts it needs. -/
theorem eq_ok_of_toOption_map {x : Except ε α} {f : α → β} {b : β}
    (h : x.toOption.map f = some b) : ∃ a, x = .ok a ∧ f a = b := by
  cases x with
  | error e => simp [Except.toOption] at h
  | ok a => exact ⟨a, rfl, Option.some.inj h⟩

@[simp] theorem expect_some (a : α) (e : ε) : expect (some a) e = .ok a := rfl

@[simp] theorem expect_none (e : ε) : expect (none : Option α) e = .error e := rfl

@[simp] theorem expect_eq_ok {o : Option α} {e : ε} {a : α} :
    expect o e = .ok a ↔ o = some a := by
  cases o <;> simp [expect]

@[simp] theorem check_eq_ok {c : Prop} [Decidable c] {e : ε} {u : PUnit} :
    check c e = .ok u ↔ c := by
  unfold check
  split <;> simp_all

theorem check_of {c : Prop} [Decidable c] (e : ε) (h : c) : check c e = .ok ⟨⟩ := by
  simp [check, h]

theorem check_of_not {c : Prop} [Decidable c] (e : ε) (h : ¬c) : check c e = .error e := by
  simp [check, h]

/-- The last round of a loop over `0 … n`. -/
theorem foldlM_range_succ (f : β → Nat → Except ε β) (b : β) (n : Nat) :
    (List.range (n + 1)).foldlM f b = (List.range n).foldlM f b >>= fun b' => f b' n := by
  rw [List.range_succ, List.foldlM_append]
  simp only [List.foldlM_cons, List.foldlM_nil, bind_pure]

/-- A loop whose every step succeeds and keeps `P` succeeds and keeps `P`. -/
theorem foldlM_of_forall {γ : Type v} {f : β → γ → Except ε β} {P : β → Prop} {l : List γ}
    {b : β} (hb : P b) (hf : ∀ x ∈ l, ∀ b, P b → ∃ b', f b x = .ok b' ∧ P b') :
    ∃ b', l.foldlM f b = .ok b' ∧ P b' := by
  induction l generalizing b with
  | nil => exact ⟨b, rfl, hb⟩
  | cons x xs ih =>
      obtain ⟨b₁, h₁, hP₁⟩ := hf x List.mem_cons_self b hb
      obtain ⟨b', h', hP'⟩ := ih hP₁ fun y hy => hf y (List.mem_cons_of_mem x hy)
      refine ⟨b', ?_, hP'⟩
      rw [List.foldlM_cons, h₁, ok_bind, h']

/-- A loop that succeeded keeps a predicate that every successful step keeps. -/
theorem foldlM_inv {γ : Type v} {f : β → γ → Except ε β} {P : β → Prop} {l : List γ}
    {b b' : β} (hb : P b) (hf : ∀ x ∈ l, ∀ b b', P b → f b x = .ok b' → P b')
    (h : l.foldlM f b = .ok b') : P b' := by
  induction l generalizing b with
  | nil =>
      simp only [List.foldlM_nil, pure_eq_ok, Except.ok.injEq] at h
      exact h ▸ hb
  | cons x xs ih =>
      rw [List.foldlM_cons] at h
      obtain ⟨b₁, h₁, h⟩ := bind_eq_ok.mp h
      exact ih (hf x List.mem_cons_self b b₁ hb h₁) (fun y hy => hf y (List.mem_cons_of_mem x hy)) h

/-! ## Aborts that cannot happen -/

/-- `x` never aborts with a payload that `bad` flags, and every value it
returns satisfies `post`. -/
def Avoids (bad : ε → Bool) (post : α → Prop) : Except ε α → Prop
  | .ok a => post a
  | .error e => bad e = false

section Avoids

variable {bad : ε → Bool}

@[simp] theorem avoids_ok {post : α → Prop} {a : α} : Avoids bad post (.ok a) ↔ post a :=
  Iff.rfl

@[simp] theorem avoids_error {post : α → Prop} {e : ε} :
    Avoids bad post (.error e) ↔ bad e = false :=
  Iff.rfl

theorem Avoids.of_eq_ok {post : α → Prop} {x : Except ε α} {a : α} (h : x = .ok a)
    (hp : post a) : Avoids bad post x :=
  h ▸ hp

theorem Avoids.not_bad {post : α → Prop} {x : Except ε α} {e : ε} (h : Avoids bad post x)
    (he : x = .error e) : bad e = false := by
  subst he
  exact h

theorem Avoids.mono {P Q : α → Prop} {x : Except ε α} (h : Avoids bad P x)
    (hpq : ∀ a, P a → Q a) : Avoids bad Q x := by
  cases x with
  | error e => exact h
  | ok a => exact hpq a h

/-- A postcondition that every successful result satisfies. -/
theorem Avoids.post {P Q : α → Prop} {x : Except ε α} (h : Avoids bad P x)
    (hq : ∀ a, x = .ok a → Q a) : Avoids bad Q x := by
  cases x with
  | error e => exact h
  | ok a => exact hq a rfl

/-- The rule for a bind: the first step avoids `bad` and ends in `P`, and
the rest, from every value in `P` the first step returns, avoids `bad` and
ends in `Q`. -/
theorem Avoids.bind {P : α → Prop} {Q : β → Prop} {x : Except ε α} {f : α → Except ε β}
    (hx : Avoids bad P x) (hf : ∀ a, x = .ok a → P a → Avoids bad Q (f a)) :
    Avoids bad Q (x >>= f) := by
  cases x with
  | error e => exact hx
  | ok a => exact hf a rfl hx

/-- An `expect` that can only fail harmlessly; what it returns is in the option. -/
theorem avoids_expect {o : Option α} {e : ε} (h : o = none → bad e = false) :
    Avoids bad (fun a => o = some a) (expect o e) := by
  cases o with
  | none => exact h rfl
  | some a => rfl

/-- A check that can only fail harmlessly; after it the condition holds. -/
theorem avoids_check {c : Prop} [Decidable c] {e : ε} (h : ¬c → bad e = false) :
    Avoids bad (fun _ => c) (check c e) := by
  by_cases hc : c
  · exact .of_eq_ok (check_of e hc) hc
  · rw [check_of_not e hc]
    exact h hc

/-- The rule for a loop: an invariant that every step keeps, without a bad
abort, is kept by the whole loop without a bad abort. -/
theorem avoids_foldlM {γ : Type v} {f : β → γ → Except ε β} {P : β → Prop} {l : List γ} {b : β}
    (hb : P b) (hf : ∀ x ∈ l, ∀ b, P b → Avoids bad P (f b x)) : Avoids bad P (l.foldlM f b) := by
  induction l generalizing b with
  | nil => exact hb
  | cons x xs ih =>
      rw [List.foldlM_cons]
      exact (hf x List.mem_cons_self b hb).bind fun b₁ _ hb₁ =>
        ih hb₁ fun y hy => hf y (List.mem_cons_of_mem x hy)

end Avoids

end Fallible
