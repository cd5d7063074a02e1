import Barrage.Proofs.Task.History
import Barrage.Proofs.Task.Order
import Mathlib.Logic.Function.Iterate

/-!
What terms read, and when. The value of a term depends on its parameters, on the difficulty and on
the random numbers, of which it takes one wherever it asks for one, from left to right. Lenient and
strict evaluation come to this value by one walk over the term. They part at the first parameter
without a value, where strict evaluation stops and lenient evaluation takes zero.
-/

set_option autoImplicit false

namespace Barrage

/-! ## What is read -/

inductive Read where
  | param (index : Nat)
  | rand
  | rank
  deriving DecidableEq

def Term.reads : Term → List Read
  | number _ => []
  | param n => [.param n]
  | rand => [.rand]
  | rank => [.rank]
  | neg t => t.reads
  | binary _ a b => a.reads ++ b.reads

def Expression.reads (e : Expression) : List Read :=
  match e.term? with
  | some t => t.reads
  | none => []

/-- What there is to read: the parameters, and the difficulty and the next random number, which
may change with the number of random numbers taken before. -/
structure Inputs (F : Type) where
  param : Nat → F
  rank : Nat → F
  random : Nat → F

section Values

variable {F : Type} [Scalar F]

/-- The value of a term before which a number of random numbers is taken. -/
def Term.valueAt (inputs : Inputs F) : Term → Nat → F
  | number d, _ => Scalar.ofDecimal d
  | param n, _ => inputs.param n
  | rand, k => inputs.random k
  | rank, k => inputs.rank k
  | neg t, k => -t.valueAt inputs k
  | binary op a b, k =>
    op.apply (a.valueAt inputs k) (b.valueAt inputs (k + a.reads.count .rand))

def Expression.value (inputs : Inputs F) (e : Expression) : F :=
  match e.term? with
  | some t => t.valueAt inputs 0
  | none => Scalar.zero

end Values

/-! ## Where it is read from -/

variable {F σ ρ : Type}

namespace Reading

def after (r : Reading F σ) (k : Nat) (s : σ) : σ := (fun s => (r.random s).2)^[k] s

theorem after_add (r : Reading F σ) (j k : Nat) (s : σ) :
    r.after (j + k) s = r.after k (r.after j s) := by
  rw [Nat.add_comm]
  exact Function.iterate_add_apply _ k j s

def zeroed [Scalar F] (r : Reading F σ) : Reading F σ :=
  { r with param? n := some ((r.param? n).getD Scalar.zero) }

/-- What the difficulty and the random numbers come from. It is a part of the state that stays as it
is when a parameter without a value is noted. -/
structure Source (r : Reading F σ) (ρ : Type) where
  part : σ → ρ
  rank : ρ → F
  next : ρ → F × ρ
  rank_eq : ∀ s, r.rank s = rank (part s)
  random_eq : ∀ s, (r.random s).1 = (next (part s)).1
  part_random : ∀ s, part (r.random s).2 = (next (part s)).2
  part_unbound : ∀ n s, part (r.unbound n s) = part s

namespace Source

variable {r : Reading F σ}

def after (source : r.Source ρ) (k : Nat) (x : ρ) : ρ := (fun x => (source.next x).2)^[k] x

theorem after_succ (source : r.Source ρ) (k : Nat) (x : ρ) :
    source.after (k + 1) x = (source.next (source.after k x)).2 :=
  Function.iterate_succ_apply' _ k x

variable [Scalar F]

def inputs (source : r.Source ρ) (x : ρ) : Inputs F where
  param n := (r.param? n).getD Scalar.zero
  rank k := source.rank (source.after k x)
  random k := (source.next (source.after k x)).1

def zeroed (source : r.Source ρ) : r.zeroed.Source ρ := { source with }

theorem inputs_zeroed (source : r.Source ρ) (x : ρ) :
    source.zeroed.inputs x = source.inputs x := rfl

end Source

end Reading

/-- In a context of their own, expressions read the difficulty and the random source of it. -/
def Context.source [Scalar F] (c : Context F) : c.reading.Source (F × RandomSource F) where
  part c := (c.rank, c.random)
  rank x := x.1
  next x := (x.2.next.1, (x.1, x.2.next.2))
  rank_eq _ := rfl
  random_eq _ := rfl
  part_random _ := rfl
  part_unbound _ _ := rfl

def Host.source [Scalar F] (h : Host F σ) (frames : Frames F) : (h.reading frames).Source σ where
  part s := s.world
  rank := h.rank
  next := h.random
  rank_eq _ := rfl
  random_eq _ := rfl
  part_random _ := rfl
  part_unbound _ _ := rfl

/-! ## Walks over terms -/

variable {r : Reading F σ} {t : Term}

def Reading.Binds (r : Reading F σ) (reads : List Read) : Prop :=
  ∀ n, .param n ∈ reads → r.param? n ≠ none

/-- Either all parameters have values or there is a first one that has none. -/
theorem Reading.binds_or_first (r : Reading F σ) (reads : List Read) :
    r.Binds reads ∨ ∃ before n after,
      reads = before ++ .param n :: after ∧ r.Binds before ∧ r.param? n = none := by
  induction reads with
  | nil => exact .inl nofun
  | cons first rest ih =>
    by_cases missing : ∃ n, first = .param n ∧ r.param? n = none
    · obtain ⟨n, rfl, unbound⟩ := missing
      exact .inr ⟨[], n, rest, rfl, nofun, unbound⟩
    · have extend : ∀ {reads}, r.Binds reads → r.Binds (first :: reads) := by
        intro reads bound n inside unbound
        rcases List.mem_cons.1 inside with same | inside
        · exact missing ⟨n, same.symm, unbound⟩
        · exact bound n inside unbound
      rcases ih with bound | ⟨before, n, after, rfl, bound, unbound⟩
      · exact .inl (extend bound)
      · exact .inr ⟨first :: before, n, after, rfl, extend bound, unbound⟩

variable [Scalar F]

namespace Term

/-- Lenient evaluation gives the value at the source, and takes what the term reads off it. -/
theorem evaluate_eq (source : r.Source ρ) (t : Term) (x : ρ) (k : Nat) (s : σ)
    (here : source.part s = source.after k x) :
    (t.evaluate r s).1 = t.valueAt (source.inputs x) k ∧
      source.part (t.evaluate r s).2 = source.after (k + t.reads.count .rand) x := by
  induction t generalizing k s with
  | number d => exact ⟨rfl, here⟩
  | param n =>
    simp only [evaluate, valueAt, Reading.Source.inputs, reads]
    cases r.param? n with
    | some v => exact ⟨rfl, here⟩
    | none => exact ⟨rfl, (source.part_unbound n s).trans here⟩
  | rand =>
    constructor
    · simp only [evaluate, valueAt, Reading.Source.inputs, source.random_eq, here]
    · simp [evaluate, reads, source.part_random, here, source.after_succ]
  | rank =>
    constructor
    · simp only [evaluate, valueAt, Reading.Source.inputs, source.rank_eq, here]
    · simpa [evaluate, reads] using here
  | neg t ih =>
    obtain ⟨value, behind⟩ := ih k s here
    exact ⟨congrArg (-·) value, behind⟩
  | binary op a b iha ihb =>
    obtain ⟨left, between⟩ := iha k s here
    obtain ⟨right, behind⟩ := ihb _ _ between
    constructor
    · simp only [evaluate, valueAt, left, right]
    · simpa only [evaluate, reads, List.count_append, Nat.add_assoc] using behind

/-- With every parameter bound, strict evaluation is lenient evaluation, and the state is only moved
on by the random numbers that are taken. -/
theorem evaluateStrict_of_binds (bound : r.Binds t.reads) (s : σ) :
    t.evaluateStrict r s = (.ok (t.evaluate r s).1, (t.evaluate r s).2) ∧
      (t.evaluate r s).2 = r.after (t.reads.count .rand) s := by
  induction t generalizing s with
  | number d => exact ⟨rfl, rfl⟩
  | param n =>
    have known := bound n (List.mem_singleton.2 rfl)
    obtain ⟨v, same⟩ := Option.ne_none_iff_exists'.1 known
    constructor
    · simp [evaluateStrict, evaluate, same]
    · simp [evaluate, same, reads, Reading.after]
  | rand => exact ⟨rfl, rfl⟩
  | rank => exact ⟨rfl, rfl⟩
  | neg t ih =>
    obtain ⟨same, behind⟩ := ih bound s
    refine ⟨?_, behind⟩
    simp only [evaluateStrict, evaluate, same]
  | binary op a b iha ihb =>
    obtain ⟨left, between⟩ := iha (fun n inside => bound n (List.mem_append_left _ inside)) s
    obtain ⟨right, behind⟩ :=
      ihb (fun n inside => bound n (List.mem_append_right _ inside)) (a.evaluate r s).2
    constructor
    · simp only [evaluateStrict, evaluate, left, right]
    · rw [reads, List.count_append, Reading.after_add, ← between]
      exact behind

/-- Strict evaluation stops at the first parameter without a value, with what was read before it
taken. -/
theorem evaluateStrict_of_unbound {before after : List Read} {n : Nat}
    (split : t.reads = before ++ .param n :: after) (bound : r.Binds before)
    (unbound : r.param? n = none) (s : σ) :
    t.evaluateStrict r s = (.error n, r.after (before.count .rand) s) := by
  induction t generalizing before after s with
  | number d => simp [reads] at split
  | param m =>
    obtain ⟨rfl, rfl, -⟩ : before = [] ∧ n = m ∧ after = [] := by
      simpa [reads, List.singleton_eq_append_iff] using split
    simp [evaluateStrict, unbound, Reading.after]
  | rand => simp [reads, List.singleton_eq_append_iff] at split
  | rank => simp [reads, List.singleton_eq_append_iff] at split
  | neg t ih => simp only [evaluateStrict, ih split bound]
  | binary op a b iha ihb =>
    rcases append_eq_split.1 split with ⟨rest, left, -⟩ | ⟨rest, rfl, right⟩
    · simp only [evaluateStrict, iha left bound]
    · -- the first operand is evaluated to its end
      obtain ⟨strict, lenient⟩ :=
        evaluateStrict_of_binds (fun m inside => bound m (List.mem_append_left _ inside)) s
      have stops := ihb right (fun m inside => bound m (List.mem_append_right _ inside))
        (a.evaluate r s).2
      rw [List.count_append, Reading.after_add, ← lenient]
      simp only [evaluateStrict, strict, stops]

end Term

/-! ## Both evaluations -/

namespace Expression

variable {e : Expression}

theorem evaluate_eq (source : r.Source ρ) (e : Expression) (s : σ) :
    (e.evaluate r s).1 = e.value (source.inputs (source.part s)) ∧
      source.part (e.evaluate r s).2 =
        source.after (e.reads.count .rand) (source.part s) := by
  unfold evaluate value reads
  cases e.term? with
  | none => exact ⟨rfl, rfl⟩
  | some t => simpa using t.evaluate_eq source (source.part s) 0 s rfl

theorem evaluateStrict_of_binds (bound : r.Binds e.reads) (s : σ) :
    e.evaluateStrict r s = (.ok (e.evaluate r s).1, (e.evaluate r s).2) := by
  unfold reads at bound
  unfold evaluate evaluateStrict
  cases same : e.term? with
  | none => rfl
  | some t =>
    simp only [same] at bound ⊢
    rw [(Term.evaluateStrict_of_binds bound s).1]

theorem evaluateStrict_of_unbound {before after : List Read} {n : Nat}
    (split : e.reads = before ++ .param n :: after) (bound : r.Binds before)
    (unbound : r.param? n = none) (s : σ) :
    e.evaluateStrict r s = (.error (.unbound n), r.after (before.count .rand) s) := by
  unfold reads at split
  unfold evaluateStrict
  cases same : e.term? with
  | none => simp [same] at split
  | some t =>
    simp only [same] at split ⊢
    rw [Term.evaluateStrict_of_unbound split bound unbound s]

structure Evaluates (e : Expression) (r : Reading F σ) (source : r.Source ρ) (s : σ) : Prop where
  fails_iff : (∃ error, (e.evaluateStrict r s).1 = .error error) ↔
    ∃ n, .param n ∈ e.reads ∧ r.param? n = none
  fails_first : ∀ error s', e.evaluateStrict r s = (.error error, s') →
    ∃ before n after, e.reads = before ++ .param n :: after ∧ r.Binds before ∧
      r.param? n = none ∧ error = .unbound n ∧ s' = r.after (before.count .rand) s
  succeeds : ∀ v s', e.evaluateStrict r s = (.ok v, s') → e.evaluate r s = (v, s')
  zeroed : ∃ s', e.evaluateStrict r.zeroed s = (.ok (e.evaluate r s).1, s') ∧
    source.part s' = source.part (e.evaluate r s).2
  value : (e.evaluate r s).1 = e.value (source.inputs (source.part s))
  taken : source.part (e.evaluate r s).2 =
    source.after (e.reads.count .rand) (source.part s)

/-- Lenient and strict evaluation agree as far as strict evaluation goes, and it stops only at the
first parameter without a value. Lenient evaluation is strict evaluation with zero for these, and
takes one random number, from left to right, wherever the expression asks for one. -/
theorem evaluations_agree (e : Expression) (r : Reading F σ) (source : r.Source ρ) (s : σ) :
    e.Evaluates r source s := by
  obtain ⟨value, taken⟩ := evaluate_eq source e s
  have zeroed : ∃ s', e.evaluateStrict r.zeroed s = (.ok (e.evaluate r s).1, s') ∧
      source.part s' = source.part (e.evaluate r s).2 := by
    obtain ⟨value', taken'⟩ := evaluate_eq source.zeroed e s
    have strict := evaluateStrict_of_binds (r := r.zeroed) (e := e) (fun _ _ => nofun) s
    rw [value', source.inputs_zeroed] at strict
    exact ⟨_, by rw [value]; exact strict, taken'.trans taken.symm⟩
  rcases r.binds_or_first e.reads with bound | ⟨before, n, after, split, bound, unbound⟩
  · have strict := evaluateStrict_of_binds bound s
    refine ⟨?_, ?_, ?_, zeroed, value, taken⟩
    · rw [strict]
      constructor
      · rintro ⟨error, same⟩
        cases same
      · rintro ⟨n, inside, unbound⟩
        exact absurd unbound (bound n inside)
    · intro error s' same
      rw [strict] at same
      cases same
    · intro v s' same
      rw [strict] at same
      cases same
      rfl
  · have strict := evaluateStrict_of_unbound split bound unbound s
    refine ⟨?_, ?_, ?_, zeroed, value, taken⟩
    · rw [strict]
      exact iff_of_true ⟨_, rfl⟩ ⟨n, by simp [split], unbound⟩
    · intro error s' same
      rw [strict] at same
      cases same
      exact ⟨before, n, after, split, bound, unbound, rfl, rfl⟩
    · intro v s' same
      rw [strict] at same
      cases same

end Expression

/-! ## A missing parameter -/

namespace Sample

def context : Context Int := { params := [1, 2], rank := 0, random := .ofList [7, 5] }

def third : Expression := { term? := some (.binary .add .rand (.binary .add (.param 3) .rand)) }

theorem evaluations_agree_third : third.Evaluates context.reading context.source context ∧
    (third.evaluateStrict context.reading context).1 = .error (.unbound 3) ∧
    (third.evaluate context.reading context).1 = 12 :=
  ⟨third.evaluations_agree _ _ _, rfl, rfl⟩

end Sample

end Barrage
