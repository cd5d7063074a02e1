import Barrage.Proofs.Expression.Derivation
import Mathlib.Algebra.GroupWithZero.Nat

/-!
The reader of expressions recognizes the grammar. What it has read between two words is the
beginning of derivations that whatever follows may complete, and along the words of a derivation it
comes to that derivation's term; the only other limit is how many parentheses and signs are open.
-/

set_option autoImplicit false

namespace Barrage.Expr

namespace Level

def addTo (l : Level) (x : Term) : Term :=
  match l.sum? with
  | some (left, op) => .binary op left x
  | none => x

theorem sum_eq (l : Level) (t : Term) : l.sum t = l.addTo (l.product t) := by
  unfold sum addTo
  cases l.sum? <;> rfl

/-- Words of a level up to where an operand has to come: whatever operand comes, whatever factors
come behind it and whatever summands behind these, all of them make up a sum. No more than `room`
parentheses and signs may be open. -/
structure Awaits (room : Nat) (ws : List Token) (l : Level) : Prop where
  fits : l.signs.length ≤ room
  completed : ∀ (u : Unary) (f : Factors) (rest : Summands), u.depth + l.signs.length ≤ room →
    f.depth ≤ room → rest.depth ≤ room → ∃ s : Sum,
      s.words = ws ++ (u.words ++ (f.words ++ rest.words)) ∧ s.depth ≤ room ∧
      s.term = rest.buildFrom Sign.apply (l.addTo
        (f.buildFrom Sign.apply (l.product (l.signed (u.build Sign.apply)))))

/-- Words of a level up to an operand: whatever factors come and whatever summands behind them, all
of them make up a sum. -/
structure Holds (room : Nat) (ws : List Token) (l : Level) (t : Term) : Prop where
  settled : l.signs = []
  completed : ∀ (f : Factors) (rest : Summands), f.depth ≤ room → rest.depth ≤ room → ∃ s : Sum,
    s.words = ws ++ (f.words ++ rest.words) ∧ s.depth ≤ room ∧
    s.term = rest.buildFrom Sign.apply (l.addTo (f.buildFrom Sign.apply (l.product t)))

variable {room : Nat} {ws : List Token} {l : Level} {t : Term}

theorem Awaits.fresh (room : Nat) : Awaits room [] {} where
  fits := Nat.zero_le _
  completed u f rest small smallF smallR :=
    ⟨.of (.of u f) rest, List.append_assoc .., Nat.max_le.2 ⟨Nat.max_le.2 ⟨small, smallF⟩, smallR⟩,
      rfl⟩

theorem Awaits.sign (awaits : Awaits room ws l) (s : Sign) (fits : l.signs.length < room) :
    Awaits room (ws ++ [s.token]) { l with signs := s :: l.signs } where
  fits := fits
  completed u f rest small smallF smallR := by
    obtain ⟨whole, words, shallow, term⟩ :=
      awaits.completed (.signed s u) f rest (by
        rw [Unary.depth]
        rw [List.length_cons] at small
        omega) smallF smallR
    refine ⟨whole, ?_, shallow, term⟩
    rw [words, List.append_assoc]
    rfl

theorem Awaits.operand (awaits : Awaits room ws l) (u : Unary)
    (small : u.depth + l.signs.length ≤ room) :
    Holds room (ws ++ u.words) { l with signs := [] } (l.signed (u.build Sign.apply)) where
  settled := rfl
  completed f rest smallF smallR := by
    obtain ⟨whole, words, shallow, term⟩ := awaits.completed u f rest small smallF smallR
    exact ⟨whole, by rw [words, List.append_assoc], shallow, term⟩

theorem Holds.multiply (holds : Holds room ws l t) (op : Times) :
    Awaits room (ws ++ [op.token]) { l with product? := some (l.product t, op.operator) } where
  fits := by
    rw [show l.signs = [] from holds.settled]
    exact Nat.zero_le _
  completed u f rest small smallF smallR := by
    obtain ⟨whole, words, shallow, term⟩ := holds.completed (.more op u f) rest
      (Nat.max_le.2 ⟨Nat.le_trans (Nat.le_add_right _ _) small, smallF⟩) smallR
    refine ⟨whole, ?_, shallow, ?_⟩
    · rw [words, Factors.words]
      simp
    · rw [term, Level.signed, holds.settled]
      rfl

theorem Holds.add (holds : Holds room ws l t) (s : Sign) :
    Awaits room (ws ++ [s.token]) { sum? := some (l.sum t, s.operator) } where
  fits := Nat.zero_le _
  completed u f rest small smallF smallR := by
    obtain ⟨whole, words, shallow, term⟩ := holds.completed .none (.more s (.of u f) rest)
      (Nat.zero_le _) (Nat.max_le.2 ⟨Nat.max_le.2 ⟨small, smallF⟩, smallR⟩)
    refine ⟨whole, ?_, shallow, ?_⟩
    · rw [words, Factors.words, Summands.words, Product.words]
      simp
    · rw [term, sum_eq]
      rfl

theorem Holds.whole (holds : Holds room ws l t) :
    ∃ s : Sum, s.words = ws ∧ s.depth ≤ room ∧ s.term = l.sum t := by
  obtain ⟨s, words, shallow, term⟩ :=
    holds.completed .none .none (Nat.zero_le _) (Nat.zero_le _)
  refine ⟨s, ?_, shallow, ?_⟩
  · rw [words]
    exact List.append_nil _
  · rw [term, sum_eq]
    rfl

end Level

namespace Reader

/-- The parentheses and signs that are open around the current level. -/
def openAround (outer : List Level) : Nat := (outer.map fun l => l.signs.length + 1).sum

theorem openAround_cons (l : Level) (outer : List Level) :
    openAround (l :: outer) = l.signs.length + 1 + openAround outer := by
  rw [openAround, List.map_cons, List.sum_cons, ← openAround]

theorem depth_eq (r : Reader) : r.depth = openAround r.outer + r.level.signs.length := by
  rw [depth]
  induction r.outer with
  | nil => exact (Nat.zero_add _).symm
  | cons l outer ih =>
    rw [List.foldr_cons, ih, openAround_cons]
    omega

/-- Words up to the innermost open parenthesis; of the levels around it each one awaits the group as
an operand. `room` is what is left for the innermost level. -/
inductive Around : List Level → Nat → List Token → Prop where
  | nil : Around [] maxDepth []
  | cons {l : Level} {outer : List Level} {room : Nat} {before ws : List Token}
      (around : Around outer (room + (l.signs.length + 1)) before)
      (awaits : l.Awaits (room + (l.signs.length + 1)) ws) :
      Around (l :: outer) room (before ++ (ws ++ [.opening]))

inductive Took (r : Reader) : List Token → Prop where
  | awaits {room : Nat} {before ws : List Token} (around : Around r.outer room before)
      (noOperand : r.operand? = none) (awaits : r.level.Awaits room ws) : Took r (before ++ ws)
  | holds {room : Nat} {before ws : List Token} {t : Term} (around : Around r.outer room before)
      (known : r.operand? = some t) (holds : r.level.Holds room ws t) : Took r (before ++ ws)

variable {r r' : Reader} {ws : List Token} {w : Token}

theorem Around.room_eq {outer : List Level} {room : Nat} {before : List Token}
    (around : Around outer room before) : openAround outer + room = maxDepth := by
  induction around with
  | nil => exact Nat.zero_add _
  | cons _ _ ih =>
    rw [openAround_cons]
    omega

/-- There is room for one more parenthesis or sign exactly if the reader allows it. -/
theorem Around.lt_iff {room : Nat} {before : List Token} (around : Around r.outer room before) :
    r.depth < maxDepth ↔ r.level.signs.length < room := by
  have := around.room_eq
  rw [depth_eq]
  omega

theorem Took.start : Took {} [] := by
  have took : Took {} ([] ++ []) := .awaits .nil rfl (.fresh maxDepth)
  exact took

theorem Took.operand {room : Nat} {before ws : List Token} (around : Around r.outer room before)
    (awaits : r.level.Awaits room ws) (u : Unary)
    (small : u.depth + r.level.signs.length ≤ room) :
    Took (r.operand (u.build Sign.apply)) (before ++ ws ++ u.words) := by
  rw [List.append_assoc]
  exact .holds around rfl (awaits.operand u small)

theorem Took.beforeOperand {room : Nat} {before ws : List Token}
    (around : Around r.outer room before) (noOperand : r.operand? = none)
    (awaits : r.level.Awaits room ws) (stepped : r.beforeOperand w = .ok r') :
    Took r' (before ++ ws ++ [w]) := by
  have simple : ∀ p : Primary, p.depth = 0 →
      Took (r.operand (p.build Sign.apply)) (before ++ ws ++ p.words) := by
    intro p flat
    refine .operand around awaits (.primary p) ?_
    rw [Unary.depth, flat, Nat.zero_add]
    exact awaits.fits
  have signed : ∀ s : Sign, r.sign s = .ok r' → Took r' (before ++ ws ++ [s.token]) := by
    intro s stepped
    unfold sign at stepped
    split at stepped
    · next room' =>
      cases stepped
      rw [List.append_assoc]
      exact .awaits around noOperand (awaits.sign s (around.lt_iff.1 room'))
    · cases stepped
  cases w with
  | number d =>
    cases stepped
    exact simple (.number d) rfl
  | param n =>
    cases stepped
    exact simple (.param n) rfl
  | rand =>
    cases stepped
    exact simple .rand rfl
  | rank =>
    cases stepped
    exact simple .rank rfl
  | plus => exact signed .plus stepped
  | minus => exact signed .minus stepped
  | opening =>
    unfold Reader.beforeOperand enter at stepped
    dsimp only at stepped
    split at stepped
    · next room' =>
      cases stepped
      -- the parenthesis and the signs before it are open in all of the new level
      obtain ⟨left, rfl⟩ := Nat.exists_eq_add_of_le' (around.lt_iff.1 room')
      have took : Took { outer := r.level :: r.outer } (before ++ (ws ++ [.opening]) ++ []) :=
        .awaits (.cons around awaits) rfl (.fresh left)
      rwa [List.append_nil, ← List.append_assoc] at took
    · cases stepped
  | star | slash | percent | closing => cases stepped

theorem Took.afterOperand {room : Nat} {before ws : List Token} {t : Term}
    (around : Around r.outer room before) (holds : r.level.Holds room ws t)
    (stepped : r.afterOperand t w = .ok r') : Took r' (before ++ ws ++ [w]) := by
  have times : ∀ op : Times, Took (r.multiply t op.operator) (before ++ ws ++ [op.token]) := by
    intro op
    rw [List.append_assoc]
    exact .awaits around rfl (holds.multiply op)
  have signed : ∀ s : Sign, Took (r.add t s.operator) (before ++ ws ++ [s.token]) := by
    intro s
    rw [List.append_assoc]
    exact .awaits around rfl (holds.add s)
  cases w with
  | plus =>
    cases stepped
    exact signed .plus
  | minus =>
    cases stepped
    exact signed .minus
  | star =>
    cases stepped
    exact times .star
  | slash =>
    cases stepped
    exact times .slash
  | percent =>
    cases stepped
    exact times .percent
  | closing =>
    obtain ⟨outer, level, operand?⟩ := r
    cases around with
    | nil => cases stepped
    | @cons l outer _ before ws' around awaits =>
      cases stepped
      obtain ⟨s, rfl, shallow, term⟩ := holds.whole
      have small : (Unary.primary (.group s)).depth + l.signs.length ≤
          room + (l.signs.length + 1) := by
        rw [Unary.depth, Primary.depth]
        omega
      have took := Took.operand (r := { outer, level := l }) around awaits _ small
      rw [Unary.words, Primary.words, Unary.build, Primary.build, ← Sum.term, term] at took
      simpa using took
  | number _ | param _ | rand | rank | opening => cases stepped

theorem Took.step (took : Took r ws) (stepped : r.step w = .ok r') : Took r' (ws ++ [w]) := by
  unfold Reader.step at stepped
  cases took with
  | awaits around noOperand awaits =>
    rw [noOperand] at stepped
    exact .beforeOperand around noOperand awaits stepped
  | holds around known holds =>
    rw [known] at stepped
    exact .afterOperand around holds stepped

theorem Took.run {t : Term} {stop : Nat} {words : List Placed} (took : Took r ws)
    (read : r.run stop words = .ok t) :
    ∃ s : Sum, s.words = ws ++ words.map Placed.token ∧ s.depth ≤ maxDepth ∧ s.term = t := by
  induction words generalizing r ws with
  | nil =>
    rw [List.map_nil, List.append_nil]
    unfold Reader.run result at read
    cases took with
    | awaits _ noOperand =>
      rw [noOperand] at read
      cases read
    | holds around known holds =>
      rw [known] at read
      generalize r.outer = outer at around read
      cases around with
      | nil =>
        cases read
        exact holds.whole
      | cons => cases read
  | cons w words ih =>
    unfold Reader.run at read
    split at read
    · next stepped =>
      obtain ⟨s, same, rest⟩ := ih (took.step stepped) read
      refine ⟨s, ?_, rest⟩
      rw [same, List.append_assoc]
      rfl
    · cases read

/-! ## Along a derivation -/

/-- A reader comes to another one over words. -/
inductive Leads : Reader → List Token → Reader → Prop where
  | nil {r : Reader} : Leads r [] r
  | cons {r next r' : Reader} {w : Token} {ws : List Token} (stepped : r.step w = .ok next)
      (further : Leads next ws r') : Leads r (w :: ws) r'

theorem Leads.append {r'' : Reader} {more : List Token} (first : Leads r ws r')
    (second : Leads r' more r'') : Leads r (ws ++ more) r'' := by
  induction first with
  | nil => exact second
  | cons stepped _ ih => exact .cons stepped (ih second)

theorem Leads.run {stop : Nat} {words : List Placed} (leads : Leads r (words.map Placed.token) r') :
    r.run stop words = r'.run stop [] := by
  generalize same : words.map Placed.token = ws at leads
  induction leads generalizing words with
  | nil => rw [List.map_eq_nil_iff.1 same]
  | cons stepped _ ih =>
    obtain ⟨w, words, rfl, rfl, sameRest⟩ := List.map_eq_cons_iff.1 same
    refine Eq.trans ?_ (ih sameRest)
    rw [Reader.run, stepped]

def AtProduct (outer : List Level) (sum? : Option (Term × Operator)) (x : Term) (r : Reader) :
    Prop :=
  ∃ product? t, r = { outer, level := { sum?, product? }, operand? := some t } ∧
    Level.product { sum?, product? } t = x

def AtSum (outer : List Level) (x : Term) (r : Reader) : Prop :=
  ∃ sum? product? t, r = { outer, level := { sum?, product? }, operand? := some t } ∧
    Level.sum { sum?, product? } t = x

theorem AtProduct.atSum {outer : List Level} {sum? : Option (Term × Operator)} {x : Term}
    (reached : AtProduct outer sum? x r) : AtSum outer (Level.addTo { sum? } x) r := by
  obtain ⟨product?, t, rfl, rfl⟩ := reached
  exact ⟨sum?, product?, t, rfl, Level.sum_eq _ _⟩

mutual

theorem leads_sum : (s : Sum) → (outer : List Level) → openAround outer + s.depth ≤ maxDepth →
    ∃ r, Leads { outer } s.words r ∧ AtSum outer (s.build Sign.apply) r
  | .of first rest, outer, shallow => by
    rw [Sum.depth] at shallow
    obtain ⟨r, leads, product⟩ := leads_product first outer none (by omega)
    obtain ⟨r', leads', sum⟩ := leads_summands rest outer (by omega) product.atSum
    exact ⟨r', leads.append leads', sum⟩

theorem leads_summands : (rest : Summands) → (outer : List Level) →
    openAround outer + rest.depth ≤ maxDepth → {x : Term} → {r : Reader} → AtSum outer x r →
    ∃ r', Leads r rest.words r' ∧ AtSum outer (rest.buildFrom Sign.apply x) r'
  | .none, _, _, _, r, sum => ⟨r, .nil, sum⟩
  | .more s next rest, outer, shallow, x, r, sum => by
    rw [Summands.depth] at shallow
    obtain ⟨sum?, product?, t, rfl, rfl⟩ := sum
    obtain ⟨r, leads, product⟩ := leads_product next outer
      (some (Level.sum { sum?, product? } t, s.operator)) (by omega)
    obtain ⟨r', leads', sum⟩ := leads_summands rest outer (by omega) product.atSum
    refine ⟨r', .cons ?_ (leads.append leads'), sum⟩
    cases s <;> rfl

theorem leads_product : (p : Product) → (outer : List Level) →
    (sum? : Option (Term × Operator)) → openAround outer + p.depth ≤ maxDepth →
    ∃ r, Leads { outer, level := { sum? } } p.words r ∧ AtProduct outer sum? (p.build Sign.apply) r
  | .of first rest, outer, sum?, shallow => by
    rw [Product.depth] at shallow
    have leads := leads_unary first { outer, level := { sum? } } rfl (by
      rw [depth_eq]
      dsimp only [List.length_nil]
      omega)
    obtain ⟨r', leads', product⟩ := leads_factors rest outer sum? (by omega)
      ⟨none, _, rfl, rfl⟩
    exact ⟨r', leads.append leads', product⟩

theorem leads_factors : (rest : Factors) → (outer : List Level) →
    (sum? : Option (Term × Operator)) → openAround outer + rest.depth ≤ maxDepth → {x : Term} →
    {r : Reader} → AtProduct outer sum? x r →
    ∃ r', Leads r rest.words r' ∧ AtProduct outer sum? (rest.buildFrom Sign.apply x) r'
  | .none, _, _, _, _, r, product => ⟨r, .nil, product⟩
  | .more times next rest, outer, sum?, shallow, x, r, product => by
    rw [Factors.depth] at shallow
    obtain ⟨product?, t, rfl, rfl⟩ := product
    let pending := some (Level.product { sum?, product? } t, times.operator)
    have leads := leads_unary next { outer, level := { sum?, product? := pending } } rfl (by
      rw [depth_eq]
      dsimp only [List.length_nil]
      omega)
    obtain ⟨r', leads', product⟩ :=
      leads_factors rest outer sum? (by omega) ⟨pending, _, rfl, rfl⟩
    refine ⟨r', .cons ?_ (leads.append leads'), product⟩
    cases times <;> rfl

theorem leads_unary : (u : Unary) → (r : Reader) → r.operand? = none →
    r.depth + u.depth ≤ maxDepth → Leads r u.words (r.operand (u.build Sign.apply))
  | .primary p, r, noOperand, shallow => leads_primary p r noOperand shallow
  | .signed s u, r, noOperand, shallow => by
    rw [Unary.depth] at shallow
    let signed : Reader := { r with level := { r.level with signs := s :: r.level.signs } }
    have deeper : signed.depth = r.depth + 1 := by
      rw [depth_eq, depth_eq]
      exact (Nat.add_assoc _ _ _).symm
    have stepped : r.step s.token = .ok signed := by
      have accepted : r.sign s = .ok signed := if_pos (by omega)
      rw [Reader.step, noOperand]
      cases s <;> exact accepted
    exact .cons stepped (leads_unary u signed noOperand (by omega))

theorem leads_primary : (p : Primary) → (r : Reader) → r.operand? = none →
    r.depth + p.depth ≤ maxDepth → Leads r p.words (r.operand (p.build Sign.apply))
  | .number d, r, noOperand, _ => .cons (by rw [Reader.step, noOperand]; rfl) .nil
  | .param n, r, noOperand, _ => .cons (by rw [Reader.step, noOperand]; rfl) .nil
  | .rand, r, noOperand, _ => .cons (by rw [Reader.step, noOperand]; rfl) .nil
  | .rank, r, noOperand, _ => .cons (by rw [Reader.step, noOperand]; rfl) .nil
  | .group s, r, noOperand, shallow => by
    rw [Primary.depth] at shallow
    have entered : r.step .opening = .ok { outer := r.level :: r.outer } := by
      rw [Reader.step, noOperand]
      exact if_pos (by omega)
    obtain ⟨r', leads, sum⟩ := leads_sum s (r.level :: r.outer) (by
      rw [depth_eq] at shallow
      rw [openAround_cons]
      omega)
    obtain ⟨sum?, product?, t, rfl, term⟩ := sum
    refine .cons entered (leads.append (.cons ?_ .nil))
    rw [Primary.build, ← term]
    rfl

end

end Reader

/-- The reader comes to a term exactly if the words are those of a derivation in which no more
parentheses and signs are open than allowed, and then to the term of that derivation. -/
theorem readTerm_iff {stop : Nat} {words : List Placed} {t : Term} :
    readTerm stop words = .ok t ↔
      ∃ s : Sum, s.words = words.map Placed.token ∧ s.depth ≤ maxDepth ∧ s.term = t := by
  constructor
  · intro read
    exact Reader.Took.start.run read
  · rintro ⟨s, same, shallow, rfl⟩
    obtain ⟨r, leads, sum?, product?, t, rfl, term⟩ :=
      Reader.leads_sum s [] (by rwa [Reader.openAround, List.map_nil, List.sum_nil, Nat.zero_add])
    rw [same] at leads
    rw [readTerm, leads.run, Sum.term, ← term]
    rfl

/-! ## Values -/

section Values

variable {F σ : Type} [Scalar F] {r : Reading F σ}

structure Alike (r : Reading F σ) (t u : Term) : Prop where
  lenient : ∀ s, t.evaluate r s = u.evaluate r s
  strict : ∀ s, t.evaluateStrict r s = u.evaluateStrict r s

variable {t u t' u' : Term}

theorem Alike.refl (r : Reading F σ) (t : Term) : Alike r t t := ⟨fun _ => rfl, fun _ => rfl⟩

theorem Alike.binary (op : Operator) (left : Alike r t u) (right : Alike r t' u') :
    Alike r (.binary op t t') (.binary op u u') where
  lenient s := by simp only [Term.evaluate, left.lenient, right.lenient]
  strict s := by simp only [Term.evaluateStrict, left.strict, right.strict]

theorem Alike.neg (same : Alike r t u) : Alike r (.neg t) (.neg u) where
  lenient s := by simp only [Term.evaluate, same.lenient]
  strict s := by simp only [Term.evaluateStrict, same.strict]

/-- A minus sign may become part of a literal where negation means the same for literals and for
values. -/
theorem Alike.sign (law : ∀ d : Decimal, (Scalar.ofDecimal (-d) : F) = -Scalar.ofDecimal d)
    (s : Sign) (same : Alike r t u) : Alike r (s.apply t) (s.plain u) := by
  have folded : Alike r (Sign.minus.apply t) (.neg t) := by
    cases t with
    | number d =>
      refine ⟨fun s => ?_, fun s => ?_⟩
      · simp only [Sign.apply, Term.evaluate, law]
      · simp only [Sign.apply, Term.evaluateStrict, law]
    | _ => exact .refl r _
  cases s with
  | plus => exact same
  | minus =>
    exact ⟨fun s => (folded.lenient s).trans (same.neg.lenient s),
      fun s => (folded.strict s).trans (same.neg.strict s)⟩

def KeepAlike (r : Reading F σ) (sign sign' : Sign → Term → Term) : Prop :=
  ∀ (s : Sign) {t u : Term}, Alike r t u → Alike r (sign s t) (sign' s u)

mutual

theorem KeepAlike.sum {sign sign' : Sign → Term → Term} (keep : KeepAlike r sign sign') :
    ∀ s : Sum, Alike r (s.build sign) (s.build sign')
  | .of first rest => keep.summands rest (keep.product first)

theorem KeepAlike.summands {sign sign' : Sign → Term → Term} (keep : KeepAlike r sign sign') :
    ∀ (rest : Summands) {t u : Term}, Alike r t u →
      Alike r (rest.buildFrom sign t) (rest.buildFrom sign' u)
  | .none, _, _, same => same
  | .more s next rest, _, _, same =>
    keep.summands rest (.binary s.operator same (keep.product next))

theorem KeepAlike.product {sign sign' : Sign → Term → Term} (keep : KeepAlike r sign sign') :
    ∀ p : Product, Alike r (p.build sign) (p.build sign')
  | .of first rest => keep.factors rest (keep.unary first)

theorem KeepAlike.factors {sign sign' : Sign → Term → Term} (keep : KeepAlike r sign sign') :
    ∀ (rest : Factors) {t u : Term}, Alike r t u →
      Alike r (rest.buildFrom sign t) (rest.buildFrom sign' u)
  | .none, _, _, same => same
  | .more times next rest, _, _, same =>
    keep.factors rest (.binary times.operator same (keep.unary next))

theorem KeepAlike.unary {sign sign' : Sign → Term → Term} (keep : KeepAlike r sign sign') :
    ∀ u : Unary, Alike r (u.build sign) (u.build sign')
  | .signed s u => keep s (keep.unary u)
  | .primary p => keep.primary p

theorem KeepAlike.primary {sign sign' : Sign → Term → Term} (keep : KeepAlike r sign sign') :
    ∀ p : Primary, Alike r (p.build sign) (p.build sign')
  | .group s => keep.sum s
  | .number _ | .param _ | .rand | .rank => .refl r _

end

end Values

/-- The reader implements the grammar: it comes to a term exactly for the words of a derivation in
which no more parentheses and signs are open than allowed, and to that derivation's term; words have
one derivation at most; and where negation means the same for literals and for values, the term has
the value of the derivation with all its minus signs. -/
theorem reads_derivations (stop : Nat) (words : List Placed) :
    (∀ t, readTerm stop words = .ok t ↔
      ∃ s : Sum, s.words = words.map Placed.token ∧ s.depth ≤ maxDepth ∧ s.term = t) ∧
    (∀ s s' : Sum, s.words = s'.words → s = s') ∧
    ∀ (F σ : Type) [Scalar F],
      (∀ d : Decimal, (Scalar.ofDecimal (-d) : F) = -Scalar.ofDecimal d) →
      ∀ (s : Sum) (r : Reading F σ), Alike r s.term s.unfolded :=
  ⟨fun _ => readTerm_iff, fun _ _ => Sum.words_injective,
    fun _ _ _ law s _ => KeepAlike.sum (fun sign _ _ same => same.sign law sign) s⟩

/-- The words of `-(1)-2*+$1`. -/
example : readTerm 10 ([.minus, .opening, .number (.ofNat 1), .closing, .minus,
      .number (.ofNat 2), .star, .plus, .param 1].map fun w => ⟨w, 0⟩) =
    .ok (.binary .sub (.number (-.ofNat 1)) (.binary .mul (.number (.ofNat 2)) (.param 1))) := by
  decide

end Barrage.Expr
