import Barrage.Proofs.Expression.Evaluation
import Barrage.Proofs.Expression.Recognition
import Barrage.Proofs.Expression.Words

/-!
What is known of an expression before it is evaluated. A constant expression has one value, in all
contexts, and takes no random number for it. Any other depends on the difficulty, on the random
numbers and on the parameters up to the highest that occurs, and on nothing else: where these are
the same, both evaluations come to the same end over the same number of random numbers. What a text
can name at all is limited, for the variables in it are those of its words.
-/

set_option autoImplicit false

namespace Barrage

/-! ## The analyses -/

def Expression.maxParam (e : Expression) : Nat :=
  match e.term? with
  | some t => t.maxParam
  | none => 0

namespace Term

theorem maxParam_le_iff {t : Term} {bound : Nat} :
    t.maxParam ≤ bound ↔ ∀ n, .param n ∈ t.reads → n ≤ bound := by
  induction t with
  | number | rand | rank => simp [maxParam, reads]
  | param => simp [maxParam, reads]
  | neg t ih => exact ih
  | binary op a b iha ihb =>
    rw [maxParam, Nat.max_le, iha, ihb]
    simp only [reads, List.mem_append, or_imp, forall_and]

end Term

namespace Expression

variable {e : Expression}

theorem maxParam_le_iff {bound : Nat} :
    e.maxParam ≤ bound ↔ ∀ n, .param n ∈ e.reads → n ≤ bound := by
  unfold maxParam reads
  cases e.term? with
  | none => simp
  | some t => exact Term.maxParam_le_iff

end Expression

/-! ## Two contexts -/

variable {F σ σ' ρ ρ' : Type}

namespace Reading

variable {r : Reading F σ} {r' : Reading F σ'} {related : σ → σ' → Prop}

/-- Whatever is read of two contexts but parameters is the same, and stays the same when it is
read in both. -/
structure InStep (r : Reading F σ) (r' : Reading F σ') (related : σ → σ' → Prop) : Prop where
  rank : ∀ {s s'}, related s s' → r.rank s = r'.rank s'
  random : ∀ {s s'}, related s s' → (r.random s).1 = (r'.random s').1
  drawn : ∀ {s s'}, related s s' → related (r.random s).2 (r'.random s').2
  noted : ∀ {s s'} (n : Nat), related s s' → related (r.unbound n s) (r'.unbound n s')

/-- Some parameters have the same values in two contexts, or have none in both. -/
def AgreeOn (r : Reading F σ) (r' : Reading F σ') (reads : List Read) : Prop :=
  ∀ n, .param n ∈ reads → r.param? n = r'.param? n

theorem AgreeOn.append_iff {front back : List Read} :
    r.AgreeOn r' (front ++ back) ↔ r.AgreeOn r' front ∧ r.AgreeOn r' back := by
  simp only [AgreeOn, List.mem_append, or_imp, forall_and]

theorem AgreeOn.param {n : Nat} (agree : r.AgreeOn r' [.param n]) : r.param? n = r'.param? n :=
  agree n (List.mem_singleton.2 rfl)

/-- A context together with the number of random numbers that were taken from it. -/
def counted (r : Reading F σ) : Reading F (σ × Nat) where
  param? := r.param?
  rank s := r.rank s.1
  random s := ((r.random s.1).1, ((r.random s.1).2, s.2 + 1))
  unbound n s := (r.unbound n s.1, s.2)

theorem inStep_counted (r : Reading F σ) : r.InStep r.counted fun s c => s = c.1 where
  rank same := congrArg r.rank same
  random same := congrArg (fun s => (r.random s).1) same
  drawn same := congrArg (fun s => (r.random s).2) same
  noted n same := congrArg (r.unbound n) same

theorem InStep.counted (inStep : r.InStep r' related) :
    r.counted.InStep r'.counted fun c c' => related c.1 c'.1 ∧ c.2 = c'.2 where
  rank here := inStep.rank here.1
  random here := inStep.random here.1
  drawn here := ⟨inStep.drawn here.1, congrArg (· + 1) here.2⟩
  noted n here := ⟨inStep.noted n here.1, here.2⟩

/-- Two contexts have the same difficulty and the same random numbers, now and after whatever
number of these is taken. -/
structure Source.Alike (source : r.Source ρ) (source' : r'.Source ρ') (s : σ) (s' : σ') : Prop where
  rank : ∀ k, source.rank (source.after k (source.part s)) =
    source'.rank (source'.after k (source'.part s'))
  random : ∀ k, (source.next (source.after k (source.part s))).1 =
    (source'.next (source'.after k (source'.part s'))).1

theorem Source.after_random (source : r.Source ρ) (k : Nat) (s : σ) :
    source.after k (source.part (r.random s).2) = source.after (k + 1) (source.part s) := by
  rw [source.part_random]
  rfl

theorem Source.inStep (source : r.Source ρ) (source' : r'.Source ρ') :
    r.InStep r' (source.Alike source') where
  rank {s s'} alike := by
    rw [source.rank_eq, source'.rank_eq]
    exact alike.rank 0
  random {s s'} alike := by
    rw [source.random_eq, source'.random_eq]
    exact alike.random 0
  drawn {s s'} alike := by
    constructor
    · intro k
      rw [source.after_random, source'.after_random]
      exact alike.rank (k + 1)
    · intro k
      rw [source.after_random, source'.after_random]
      exact alike.random (k + 1)
  noted {s s'} n alike := by
    constructor
    · intro k
      rw [source.part_unbound, source'.part_unbound]
      exact alike.rank k
    · intro k
      rw [source.part_unbound, source'.part_unbound]
      exact alike.random k

end Reading

/-! ## Evaluation in both -/

section Evaluation

namespace Term

def onward (o : Except Nat F × σ) (f : F → σ → Except Nat F × σ) : Except Nat F × σ :=
  match o with
  | (.ok x, s) => f x s
  | (.error n, s) => (.error n, s)

theorem onward_inStep {related : σ → σ' → Prop} {o : Except Nat F × σ}
    {o' : Except Nat F × σ'}
    {f : F → σ → Except Nat F × σ} {f' : F → σ' → Except Nat F × σ'}
    (first : o.1 = o'.1 ∧ related o.2 o'.2)
    (next : ∀ x {s s'}, related s s' → (f x s).1 = (f' x s').1 ∧ related (f x s).2 (f' x s').2) :
    (onward o f).1 = (onward o' f').1 ∧ related (onward o f).2 (onward o' f').2 := by
  obtain ⟨outcome, s⟩ := o
  obtain ⟨outcome', s'⟩ := o'
  obtain ⟨same, here⟩ := first
  obtain rfl : outcome = outcome' := same
  cases outcome with
  | error n => exact ⟨rfl, here⟩
  | ok x => exact next x here

end Term

variable [Scalar F] {r : Reading F σ} {r' : Reading F σ'} {related : σ → σ' → Prop}
  {s : σ} {s' : σ'}

namespace Term

variable {t : Term}

theorem evaluate_inStep (inStep : r.InStep r' related) (agree : r.AgreeOn r' t.reads)
    (here : related s s') :
    (t.evaluate r s).1 = (t.evaluate r' s').1 ∧
      related (t.evaluate r s).2 (t.evaluate r' s').2 := by
  induction t generalizing s s' with
  | number d => exact ⟨rfl, here⟩
  | param n =>
    simp only [evaluate, ← agree.param]
    cases r.param? n with
    | some x => exact ⟨rfl, here⟩
    | none => exact ⟨rfl, inStep.noted n here⟩
  | rand => exact ⟨inStep.random here, inStep.drawn here⟩
  | rank => exact ⟨inStep.rank here, here⟩
  | neg t ih =>
    obtain ⟨value, behind⟩ := ih agree here
    exact ⟨congrArg (-·) value, behind⟩
  | binary op a b iha ihb =>
    obtain ⟨agreeA, agreeB⟩ := Reading.AgreeOn.append_iff.1 agree
    obtain ⟨left, between⟩ := iha agreeA here
    obtain ⟨right, behind⟩ := ihb agreeB between
    exact ⟨congrArg₂ op.apply left right, behind⟩

theorem evaluateStrict_neg :
    (neg t).evaluateStrict r s = onward (t.evaluateStrict r s) fun x s => (.ok (-x), s) := by
  rw [evaluateStrict]
  rfl

theorem evaluateStrict_binary {op : Operator} {a b : Term} :
    (binary op a b).evaluateStrict r s =
      onward (a.evaluateStrict r s) fun x s =>
        onward (b.evaluateStrict r s) fun y s => (.ok (op.apply x y), s) := by
  rw [evaluateStrict]
  obtain ⟨_ | x, s₁⟩ := a.evaluateStrict r s
  · rfl
  · simp only [onward]
    obtain ⟨_ | y, s₂⟩ := b.evaluateStrict r s₁ <;> rfl

theorem evaluateStrict_inStep (inStep : r.InStep r' related) (agree : r.AgreeOn r' t.reads)
    (here : related s s') :
    (t.evaluateStrict r s).1 = (t.evaluateStrict r' s').1 ∧
      related (t.evaluateStrict r s).2 (t.evaluateStrict r' s').2 := by
  induction t generalizing s s' with
  | number d => exact ⟨rfl, here⟩
  | param n =>
    simp only [evaluateStrict, ← agree.param]
    cases r.param? n with
    | some x => exact ⟨rfl, here⟩
    | none => exact ⟨rfl, here⟩
  | rand => exact ⟨congrArg Except.ok (inStep.random here), inStep.drawn here⟩
  | rank => exact ⟨congrArg Except.ok (inStep.rank here), here⟩
  | neg t ih =>
    rw [evaluateStrict_neg, evaluateStrict_neg]
    exact onward_inStep (ih agree here) fun _ _ _ behind => ⟨rfl, behind⟩
  | binary op a b iha ihb =>
    obtain ⟨agreeA, agreeB⟩ := Reading.AgreeOn.append_iff.1 agree
    rw [evaluateStrict_binary, evaluateStrict_binary]
    refine onward_inStep (iha agreeA here) fun x _ _ between => ?_
    exact onward_inStep (ihb agreeB between) fun _ _ _ behind => ⟨rfl, behind⟩

theorem exists_value_of_isConstant (constant : t.isConstant) :
    ∃ v : F, ∀ {σ : Type} (r : Reading F σ) (s : σ),
      t.evaluate r s = (v, s) ∧ t.evaluateStrict r s = (.ok v, s) := by
  induction t with
  | number d => exact ⟨Scalar.ofDecimal d, fun _ _ => ⟨rfl, rfl⟩⟩
  | param | rand | rank => cases constant
  | neg t ih =>
    obtain ⟨v, values⟩ := ih constant
    refine ⟨-v, fun r s => ?_⟩
    simp only [evaluate, evaluateStrict, values r s, and_self]
  | binary op a b iha ihb =>
    obtain ⟨constantA, constantB⟩ := Bool.and_eq_true_iff.1 constant
    obtain ⟨x, left⟩ := iha constantA
    obtain ⟨y, right⟩ := ihb constantB
    refine ⟨op.apply x y, fun r s => ?_⟩
    simp only [evaluate, evaluateStrict, left r s, right r s, and_self]

end Term

namespace Expression

variable {e : Expression}

theorem evaluate_inStep (inStep : r.InStep r' related) (agree : r.AgreeOn r' e.reads)
    (here : related s s') :
    (e.evaluate r s).1 = (e.evaluate r' s').1 ∧
      related (e.evaluate r s).2 (e.evaluate r' s').2 := by
  unfold reads at agree
  unfold evaluate
  cases same : e.term? with
  | none => exact ⟨rfl, here⟩
  | some t =>
    rw [same] at agree
    exact Term.evaluate_inStep inStep agree here

theorem evaluateStrict_inStep (inStep : r.InStep r' related) (agree : r.AgreeOn r' e.reads)
    (here : related s s') :
    (e.evaluateStrict r s).1 = (e.evaluateStrict r' s').1 ∧
      related (e.evaluateStrict r s).2 (e.evaluateStrict r' s').2 := by
  unfold reads at agree
  unfold evaluateStrict
  cases same : e.term? with
  | none => exact ⟨rfl, here⟩
  | some t =>
    rw [same] at agree
    have both := Term.evaluateStrict_inStep inStep agree here
    dsimp only
    generalize t.evaluateStrict r s = o at both ⊢
    generalize t.evaluateStrict r' s' = o' at both ⊢
    obtain ⟨outcome, s⟩ := o
    obtain ⟨outcome', s'⟩ := o'
    obtain ⟨stop, behind⟩ := both
    obtain rfl : outcome = outcome' := stop
    cases outcome <;> exact ⟨rfl, behind⟩

def drawn (e : Expression) (r : Reading F σ) (s : σ) : Nat := (e.evaluate r.counted (s, 0)).2.2

/-- The number of random numbers that strict evaluation takes, up to where it stops. -/
def drawnStrict (e : Expression) (r : Reading F σ) (s : σ) : Nat :=
  (e.evaluateStrict r.counted (s, 0)).2.2

theorem evaluate_counted (e : Expression) (r : Reading F σ) (s : σ) (k : Nat) :
    ∃ n, e.evaluate r.counted (s, k) = ((e.evaluate r s).1, ((e.evaluate r s).2, n)) := by
  have here : (fun s (c : σ × Nat) => s = c.1) s (s, k) := rfl
  obtain ⟨value, state⟩ := evaluate_inStep (e := e) r.inStep_counted (fun _ _ => rfl) here
  exact ⟨_, Prod.ext value.symm (Prod.ext state.symm rfl)⟩

theorem evaluateStrict_counted (e : Expression) (r : Reading F σ) (s : σ) (k : Nat) :
    ∃ n, e.evaluateStrict r.counted (s, k) =
      ((e.evaluateStrict r s).1, ((e.evaluateStrict r s).2, n)) := by
  have here : (fun s (c : σ × Nat) => s = c.1) s (s, k) := rfl
  obtain ⟨outcome, state⟩ :=
    evaluateStrict_inStep (e := e) r.inStep_counted (fun _ _ => rfl) here
  exact ⟨_, Prod.ext outcome.symm (Prod.ext state.symm rfl)⟩

/-- An expression has a value in a context, which both evaluations come to at once: they take no
random number and leave everything as it is. -/
structure Gives (e : Expression) (r : Reading F σ) (s : σ) (v : F) : Prop where
  lenient : e.evaluate r s = (v, s)
  strict : e.evaluateStrict r s = (.ok v, s)
  drawn : e.drawn r s = 0
  drawnStrict : e.drawnStrict r s = 0

theorem gives_of_isConstant (constant : e.isConstant) :
    ∃ v : F, ∀ {σ : Type} (r : Reading F σ) (s : σ), e.Gives r s v := by
  have values : ∃ v : F, ∀ {σ : Type} (r : Reading F σ) (s : σ),
      e.evaluate r s = (v, s) ∧ e.evaluateStrict r s = (.ok v, s) := by
    unfold isConstant at constant
    unfold evaluate evaluateStrict
    cases same : e.term? with
    | none => exact ⟨Scalar.zero, fun _ _ => ⟨rfl, rfl⟩⟩
    | some t =>
      rw [same] at constant
      obtain ⟨v, values⟩ := Term.exists_value_of_isConstant (F := F) constant
      refine ⟨v, fun r s => ?_⟩
      simp only [values r s, and_self]
  obtain ⟨v, values⟩ := values
  refine ⟨v, fun r s => ⟨(values r s).1, (values r s).2, ?_, ?_⟩⟩
  · rw [Expression.drawn, (values r.counted (s, 0)).1]
  · rw [Expression.drawnStrict, (values r.counted (s, 0)).2]

/-- Both evaluations come to the same end in two contexts, over as many random numbers. -/
structure SameOutcome (e : Expression) (r : Reading F σ) (s : σ) (r' : Reading F σ') (s' : σ') :
    Prop where
  lenient : (e.evaluate r s).1 = (e.evaluate r' s').1
  strict : (e.evaluateStrict r s).1 = (e.evaluateStrict r' s').1
  drawn : e.drawn r s = e.drawn r' s'
  drawnStrict : e.drawnStrict r s = e.drawnStrict r' s'

theorem sameOutcome_of_inStep (inStep : r.InStep r' related) (agree : r.AgreeOn r' e.reads)
    (here : related s s') : e.SameOutcome r s r' s' :=
  have counting : (fun (c : σ × Nat) (c' : σ' × Nat) => related c.1 c'.1 ∧ c.2 = c'.2)
      (s, 0) (s', 0) := ⟨here, rfl⟩
  { lenient := (evaluate_inStep inStep agree here).1
    strict := (evaluateStrict_inStep inStep agree here).1
    drawn := (evaluate_inStep inStep.counted agree counting).2.2
    drawnStrict := (evaluateStrict_inStep inStep.counted agree counting).2.2 }

end Expression

end Evaluation

/-! ## The variables of a text -/

namespace Expr

def Token.read? : Token → Option Read
  | param n => some (.param n)
  | rand => some .rand
  | rank => some .rank
  | _ => none

theorem Token.eq_param {t : Token} {n : Nat} (asks : t.read? = some (.param n)) : t = .param n := by
  cases t <;> cases asks
  rfl

theorem Sign.reads_apply (s : Sign) (t : Term) : (s.apply t).reads = t.reads := by
  cases s with
  | plus => rfl
  | minus => cases t <;> rfl

section Reads

variable {sign : Sign → Term → Term}

mutual

theorem Sum.reads_build (keep : ∀ s t, (sign s t).reads = t.reads) :
    ∀ s : Sum, (s.build sign).reads = s.words.filterMap Token.read?
  | .of first rest => by
    rw [Sum.build, Sum.words, rest.reads_buildFrom keep, first.reads_build keep,
      List.filterMap_append]

theorem Summands.reads_buildFrom (keep : ∀ s t, (sign s t).reads = t.reads) :
    ∀ (rest : Summands) {t : Term},
      (rest.buildFrom sign t).reads = t.reads ++ rest.words.filterMap Token.read?
  | .none, t => (List.append_nil _).symm
  | .more s next rest, t => by
    have silent : s.token.read? = none := by cases s <;> rfl
    rw [Summands.buildFrom, Summands.words, rest.reads_buildFrom keep, Term.reads,
      next.reads_build keep, List.filterMap_cons_none silent, List.filterMap_append,
      List.append_assoc]

theorem Product.reads_build (keep : ∀ s t, (sign s t).reads = t.reads) :
    ∀ p : Product, (p.build sign).reads = p.words.filterMap Token.read?
  | .of first rest => by
    rw [Product.build, Product.words, rest.reads_buildFrom keep, first.reads_build keep,
      List.filterMap_append]

theorem Factors.reads_buildFrom (keep : ∀ s t, (sign s t).reads = t.reads) :
    ∀ (rest : Factors) {t : Term},
      (rest.buildFrom sign t).reads = t.reads ++ rest.words.filterMap Token.read?
  | .none, t => (List.append_nil _).symm
  | .more times next rest, t => by
    have silent : times.token.read? = none := by cases times <;> rfl
    rw [Factors.buildFrom, Factors.words, rest.reads_buildFrom keep, Term.reads,
      next.reads_build keep, List.filterMap_cons_none silent, List.filterMap_append,
      List.append_assoc]

theorem Unary.reads_build (keep : ∀ s t, (sign s t).reads = t.reads) :
    ∀ u : Unary, (u.build sign).reads = u.words.filterMap Token.read?
  | .signed s u => by
    have silent : s.token.read? = none := by cases s <;> rfl
    rw [Unary.build, Unary.words, keep, u.reads_build keep, List.filterMap_cons_none silent]
  | .primary p => p.reads_build keep

theorem Primary.reads_build (keep : ∀ s t, (sign s t).reads = t.reads) :
    ∀ p : Primary, (p.build sign).reads = p.words.filterMap Token.read?
  | .number _ | .param _ | .rand | .rank => rfl
  | .group s => by
    rw [Primary.build, Primary.words, s.reads_build keep, List.filterMap_cons_none rfl,
      List.filterMap_append]
    exact (List.append_nil _).symm

end

end Reads

theorem reads_of_readTerm {stop : Nat} {words : List Placed} {t : Term}
    (read : readTerm stop words = .ok t) :
    t.reads = (words.map Placed.token).filterMap Token.read? := by
  obtain ⟨s, same, -, rfl⟩ := readTerm_iff.1 read
  rw [← same]
  exact Sum.reads_build Sign.reads_apply s

def Nameable (n : Nat) : Prop := 1 ≤ n ∧ n ≤ maxParameter

def Token.InRange (t : Token) : Prop := ∀ n, t = .param n → Nameable n

theorem variableNamed_inRange {name : List Char} {t : Token} (found : variableNamed name = .ok t) :
    t.InRange := by
  rintro n rfl
  unfold variableNamed at found
  split at found
  · cases found
  split at found
  · cases found
  split at found
  · cases found
  split at found
  · cases found
  split at found
  · next nameable =>
    cases found
    exact nameable
  · cases found

theorem readToken_inRange {c : Char} {rest taken : List Char} {t : Token}
    (read : readToken c rest = .ok (t, taken)) : t.InRange := by
  unfold readToken at read
  split at read
  · next marked =>
    cases read
    rintro n rfl
    unfold symbol? at marked
    split at marked <;> cases marked
  split at read
  · dsimp only at read
    split at read
    · cases read
      exact fun _ number => nomatch number
    · cases read
  split at read
  · dsimp only at read
    cases named : variableNamed (rest.takeWhile Char.isAlphanum) with
    | error problem =>
      rw [named] at read
      cases read
    | ok v =>
      rw [named] at read
      cases read
      exact variableNamed_inRange named
  · cases read

theorem readTokens_inRange {start : Nat} {found words : List Placed} {cs : List Char}
    (read : readTokens start found cs = .ok words) (before : ∀ w ∈ found, w.token.InRange) :
    ∀ w ∈ words, w.token.InRange := by
  induction start, found, cs using readTokens.induct with
  | case1 start found =>
    rw [readTokens] at read
    cases read
    exact fun w inside => before w (List.mem_reverse.1 inside)
  | case2 start found c rest white ih =>
    rw [readTokens_blank white] at read
    exact ih read before
  | case3 start found c rest solid problem failed =>
    rw [readTokens_error (by simpa using solid) failed] at read
    cases read
  | case4 start found c rest solid t taken first ih =>
    rw [readTokens_token (by simpa using solid) first] at read
    refine ih read fun w inside => ?_
    rcases List.mem_cons.1 inside with rfl | inside
    · exact readToken_inRange first
    · exact before w inside

end Expr

theorem Expression.nameable_of_parse {text : String} {e : Expression}
    (parsed : Expression.parse text = .ok e) : ∀ n, .param n ∈ e.reads → Expr.Nameable n := by
  intro n inside
  unfold parse at parsed
  split at parsed
  · cases parsed
  dsimp only at parsed
  split at parsed
  · cases parsed
    cases inside
  split at parsed
  · cases parsed
  next words tokenized =>
  split at parsed
  · next t read =>
    cases parsed
    have among : Read.param n ∈ t.reads := inside
    rw [Expr.reads_of_readTerm read, List.mem_filterMap] at among
    obtain ⟨token, named, asks⟩ := among
    obtain ⟨w, member, rfl⟩ := List.mem_map.1 named
    exact Expr.readTokens_inRange tokenized (fun _ => nofun) w member n (Expr.Token.eq_param asks)
  · cases parsed
  · cases parsed

/-! ## What the analyses say -/

structure Expression.Agree [Scalar F] {r : Reading F σ} {r' : Reading F σ'} (e : Expression)
    (source : r.Source ρ) (source' : r'.Source ρ') (s : σ) (s' : σ') : Prop where
  params : ∀ n, 1 ≤ n → n ≤ e.maxParam → r.param? n = r'.param? n
  /-- Parameters are counted from one. No text can name another, and no task has one. -/
  zeroth : .param 0 ∈ e.reads → r.param? 0 = r'.param? 0
  alike : source.Alike source' s s'

namespace Expression

variable {e : Expression}

theorem Agree.agreeOn [Scalar F] {r : Reading F σ} {r' : Reading F σ'} {source : r.Source ρ}
    {source' : r'.Source ρ'} {s : σ} {s' : σ'} (agree : e.Agree source source' s s') :
    r.AgreeOn r' e.reads := by
  intro n inside
  rcases Nat.eq_zero_or_pos n with rfl | positive
  · exact agree.zeroth inside
  · exact agree.params n positive (maxParam_le_iff.1 le_rfl n inside)

/-- Contexts of their own agree if they have the parameters, the difficulty and the random source in
common. -/
theorem agree_of_contexts [Scalar F] {c c' : Context F}
    (params : ∀ n, 1 ≤ n → n ≤ e.maxParam → c.param? n = c'.param? n) (rank : c.rank = c'.rank)
    (random : c.random = c'.random) : e.Agree c.source c'.source c c' where
  params := params
  zeroth _ := rfl
  alike := by
    have same : c.source.part c = c'.source.part c' := Prod.ext rank random
    exact ⟨fun k => congrArg (fun x => (c.source.after k x).1) same,
      fun k => congrArg (fun x => (c.source.next (c.source.after k x)).1) same⟩

/-- Tasks whose arguments and worlds are in common agree, whatever their journals are. -/
theorem agree_of_frames [Scalar F] {h : Host F σ} {frames frames' : Frames F}
    (params : ∀ n, 1 ≤ n → n ≤ e.maxParam → frames.param? n = frames'.param? n)
    {s s' : Stage σ} (world : s.world = s'.world) :
    e.Agree (h.source frames) (h.source frames') s s' where
  params := params
  zeroth _ := rfl
  alike :=
    ⟨fun k => congrArg (fun x => h.rank ((h.source frames).after k x)) world,
      fun k => congrArg (fun x => (h.random ((h.source frames).after k x)).1) world⟩

/-- The analyses of expressions are sound: a constant one has one value in all contexts and takes no
random number; any other has the same outcomes and takes as many random numbers in contexts that
agree on the difficulty, on the random numbers and on the parameters up to the highest it names; and
no text names one beyond the limit. -/
theorem analyses_sound (F : Type) [Scalar F] :
    (∀ e : Expression, e.isConstant →
      ∃ v : F, ∀ {σ : Type} (r : Reading F σ) (s : σ), e.Gives r s v) ∧
    (∀ (e : Expression) {σ σ' ρ ρ' : Type} {r : Reading F σ} {r' : Reading F σ'}
      (source : r.Source ρ) (source' : r'.Source ρ') (s : σ) (s' : σ'),
      e.Agree source source' s s' → e.SameOutcome r s r' s') ∧
    ∀ (text : String) (e : Expression), parse text = .ok e →
      e.maxParam ≤ Expr.maxParameter ∧ .param 0 ∉ e.reads := by
  refine ⟨fun e constant => gives_of_isConstant constant, ?_, ?_⟩
  · intro e σ σ' ρ ρ' r r' source source' s s' agree
    exact sameOutcome_of_inStep (source.inStep source') agree.agreeOn agree.alike
  · intro text e parsed
    have nameable := nameable_of_parse parsed
    refine ⟨maxParam_le_iff.2 fun n inside => (nameable n inside).2, fun inside => ?_⟩
    exact absurd (nameable 0 inside).1 (Nat.not_succ_le_zero 0)

end Expression

namespace Sample

def first : Expression := { term? := some (.binary .add .rand (.binary .add (.param 1) .rand)) }

def shorter : Context Int := { context with params := [1] }

theorem analyses_sound_first :
    first.SameOutcome context.reading context shorter.reading shorter ∧
    first.drawn context.reading context = 2 ∧
    (∃ v : Int, ∀ {σ : Type} (r : Reading Int σ) (s : σ), Expression.Gives {} r s v) ∧
    Expression.maxParam { source := "$64", term? := some (.param 64) } ≤ 64 := by
  obtain ⟨constants, outcomes, texts⟩ := Expression.analyses_sound Int
  refine ⟨outcomes first context.source shorter.source _ _ ?_, rfl, constants {} rfl, ?_⟩
  · refine Expression.agree_of_contexts (fun n positive small => ?_) rfl rfl
    obtain rfl : n = 1 := Nat.le_antisymm small positive
    rfl
  · exact (texts "$64" _ (by decide +kernel)).1

end Sample

end Barrage
