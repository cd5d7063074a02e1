import Barrage.Proofs.Computation
import Barrage.Task.Shot

/-!
The law of shots. Direction and speed come about in the same way: a first shot takes a value, to
which something may be added that the value is relative to, and a later shot adds a value to what
the shot before it had. They differ in what values are relative to, in what a shot has without any
value, and in that directions are wrapped.
-/

set_option autoImplicit false

namespace Barrage

variable {F σ : Type}

/-! ## The next value -/

/-- Unless a shot is counted and there is a value for later shots, it is the first value's turn. -/
theorem Shots.nextValue?_first {shots : Shots F} (rule : ShotRule)
    (anew : shots.count = 0 ∨ rule.later? = none) :
    shots.nextValue? rule = rule.first?.map fun v => (v, false) := by
  unfold nextValue?
  split
  · next v later =>
    rw [later] at anew
    rw [if_neg (by simpa using anew)]
  · rfl

theorem Shots.nextValue?_later {shots : Shots F} {rule : ShotRule} {v : ShotValue}
    (counted : shots.count ≠ 0) (later : rule.later? = some v) :
    shots.nextValue? rule = some (v, true) := by
  rw [nextValue?, later]
  exact if_pos (UInt32.pos_iff_ne_zero.2 counted)

variable [Scalar F]

/-! ## The law -/

/-- How a quantity of shots comes about. -/
structure ShotLaw (F σ : Type) where
  unit : F → F
  base? : Policy → Actor F σ → Option F
  bare : Actor F σ → F
  close : F → F

namespace ShotLaw

/-- Values of directions are relative to where the target is unless they say otherwise. -/
def direction (h : Host F σ) : ShotLaw F σ where
  unit := Scalar.radians
  base? policy a := match policy with
    | .absolute => none
    | .relative => some a.entity.direction
    | _ => some (Angle.aim a.entity.position (h.target a.entity a.world))
  bare a := Angle.aim a.entity.position (h.target a.entity a.world)
  close := Angle.wrap

/-- Values of speeds are relative to nothing unless they say otherwise. -/
def speed : ShotLaw F σ where
  unit x := x
  base? policy a := match policy with
    | .relative => some a.entity.speed
    | _ => none
  bare a := a.entity.speed
  close x := x

variable (law : ShotLaw F σ) (value : ShotValue → Acting F σ F)

def initial (policy : Policy) (x : F) (a : Actor F σ) : F :=
  law.close (match law.base? policy a with
    | none => law.unit x
    | some base => law.unit x + base)

/-- What the next shot has, and what becomes of the entity and its world meanwhile. What a value is
relative to is looked up after the value. -/
inductive Gives (rule : ShotRule) (now : Actor F σ) : (previous? : Option F) → F × Actor F σ → Prop
  where
  | later {v : ShotValue} {x previous : F} {a : Actor F σ} (sequence : rule.later? = some v)
      (evaluated : (value v).run now = (x, a)) :
      Gives rule now (some previous) (law.close (previous + law.unit x), a)
  | first {v : ShotValue} {x : F} {previous? : Option F} {a : Actor F σ}
      (anew : previous? = none ∨ rule.later? = none) (known : rule.first? = some v)
      (evaluated : (value v).run now = (x, a)) :
      Gives rule now previous? (law.initial v.policy x a, a)
  | bare {previous? : Option F} (anew : previous? = none ∨ rule.later? = none)
      (missing : rule.first? = none) : Gives rule now previous? (law.close (law.bare now), now)

def next (last : F) : Option (ShotValue × Bool) → Acting F σ F
  | none => do
    let a ← get
    pure (law.close (law.bare a))
  | some (v, later) => do
    let x ← value v
    let a ← get
    pure (if later then law.close (last + law.unit x) else law.initial v.policy x a)

theorem next_gives (rule : ShotRule) {shots : Shots F} {previous? : Option F} (last : F)
    (counted : shots.count = 0 ↔ previous? = none) (remembered : ∀ x ∈ previous?, last = x)
    (a : Actor F σ) :
    law.Gives value rule a previous? ((law.next value last (shots.nextValue? rule)).run a) := by
  by_cases anew : previous? = none ∨ rule.later? = none
  · rw [Shots.nextValue?_first rule (anew.imp_left counted.2)]
    cases known : rule.first? with
    | none => exact .bare anew known
    | some v => exact .first anew known rfl
  · rw [not_or, ← ne_eq, ← ne_eq, Option.ne_none_iff_exists', Option.ne_none_iff_exists'] at anew
    obtain ⟨⟨x, rfl⟩, v, later⟩ := anew
    obtain rfl := remembered x rfl
    rw [Shots.nextValue?_later (fun zero => nomatch counted.1 zero) later]
    exact .later later rfl

end ShotLaw

/-! ## Shots -/

namespace Env

variable (env : Env F σ) (frames : Frames F) (bullet? : Option (Ammunition F)) (rule : ShotRule)
  (shots : Shots F)

theorem shotDirection_eq : env.shotDirection frames bullet? rule shots =
    (ShotLaw.direction env.host).next (env.shotValue frames bullet?) shots.direction
      (shots.nextValue? rule) := by
  rw [shotDirection]
  cases shots.nextValue? rule with
  | none => rfl
  | some next =>
    obtain ⟨⟨⟨policy, e⟩, own⟩, later⟩ := next
    cases later with
    | true => rfl
    | false => cases policy <;> rfl

theorem shotSpeed_eq : env.shotSpeed frames bullet? rule shots =
    ShotLaw.speed.next (env.shotValue frames bullet?) shots.speed (shots.nextValue? rule) := by
  rw [shotSpeed]
  cases shots.nextValue? rule with
  | none => rfl
  | some next =>
    obtain ⟨⟨⟨policy, e⟩, own⟩, later⟩ := next
    cases later with
    | true => rfl
    | false => cases policy <;> rfl

end Env

/-- A shot of a fire, taken or refused by the host. -/
structure Firing (F : Type) : Type 1 where
  {σ : Type}
  env : Env F σ
  before : Actor F σ
  direction : F
  speed : F
  after : Actor F σ

/-- A shot of a task, with some arguments in scope, is what the laws give after the one before it,
and is given off with that direction and that speed. -/
def Firing.Follows (f : Firing F) (q : Plan F) (frames : Frames F) (direction speed : ShotRule)
    (previous? : Option (Firing F)) : Prop :=
  let bullet? := Ammunition.ofPlans? frames q.children
  let value := f.env.shotValue frames bullet?
  ∃ aimed ready : Actor F f.σ,
    (ShotLaw.direction f.env.host).Gives value direction f.before (previous?.map Firing.direction)
      (f.direction, aimed) ∧
    ShotLaw.speed.Gives value speed aimed (previous?.map Firing.speed) (f.speed, ready) ∧
    ((Actor.staged (f.env.spawn q.node bullet? ready.entity.position f.direction f.speed)).run
      ready).2 = f.after

/-- The shot that the next one follows: of some shots, the latest one first, the latest, unless
their count has started again. -/
def Firing.previous? (fs : List (Firing F)) : Option (Firing F) :=
  if (fs.length : UInt32) = 0 then none else fs.head?

section Previous

omit [Scalar F]

variable {fs : List (Firing F)}

theorem Firing.previous?_of_lt (few : fs.length < UInt32.size) : previous? fs = fs.head? := by
  unfold previous?
  split
  · next zero =>
    have noShots : fs.length = 0 :=
      (UInt32.toNat_ofNat_of_lt' few).symm.trans (congrArg UInt32.toNat zero)
    rw [List.length_eq_zero_iff.1 noShots, List.head?_nil]
  · rfl

theorem Firing.previous?_eq_none_iff : previous? fs = none ↔ (fs.length : UInt32) = 0 := by
  unfold previous?
  split
  · next zero => exact iff_of_true rfl zero
  · next counted =>
    refine iff_of_false ?_ counted
    intro noShots
    rw [List.head?_eq_none_iff.1 noShots] at counted
    exact counted rfl

theorem Firing.mem_head?_of_previous? {f : Firing F} (last : f ∈ previous? fs) : f ∈ fs.head? := by
  unfold previous? at last
  split at last
  · cases last
  · exact last

end Previous

/-- The fire has counted some shots, the latest one first, and remembers the latest. -/
def Shots.Of (fs : List (Firing F)) (shots : Shots F) : Prop :=
  shots.count = fs.length ∧ ∀ f ∈ fs.head?, shots.direction = f.direction ∧ shots.speed = f.speed

omit [Scalar F] in
theorem Shots.of_nil {shots : Shots F} : shots.Of [] ↔ shots.count = 0 := by
  simp [Of]

namespace Env

variable (env : Env F σ) (node : NodeId) (frames : Frames F) (holders : List (Plan F))
  (direction speed : ShotRule) (shots : Shots F) (a : Actor F σ)

theorem run_shoot :
    let bullet? := Ammunition.ofPlans? frames holders
    let aimed := (env.shotDirection frames bullet? direction shots).run a
    let ready := (env.shotSpeed frames bullet? speed shots).run aimed.2
    (env.shoot node frames holders direction speed shots).run a =
      (⟨shots.count + 1, aimed.1, ready.1⟩, ((Actor.staged
        (env.spawn node bullet? ready.2.entity.position aimed.1 ready.1)).run ready.2).2) := rfl

def firing : Firing F :=
  let (shots, after) := (env.shoot node frames holders direction speed shots).run a
  { env, before := a, direction := shots.direction, speed := shots.speed, after }

variable {shots}

theorem firing_follows (q : Plan F) {fs : List (Firing F)} (remembers : shots.Of fs) :
    let f := env.firing q.node frames q.children direction speed shots a
    f.Follows q frames direction speed (Firing.previous? fs) ∧
      Shots.Of (f :: fs) ((env.shoot q.node frames q.children direction speed shots).run a).1 := by
  obtain ⟨counted, last⟩ := remembers
  have count : ∀ get : Firing F → F, shots.count = 0 ↔ (Firing.previous? fs).map get = none := by
    intro get
    rw [counted, Option.map_eq_none_iff, Firing.previous?_eq_none_iff]
  have remembered : ∀ f ∈ Firing.previous? fs,
      shots.direction = f.direction ∧ shots.speed = f.speed :=
    fun f member => last f (Firing.mem_head?_of_previous? member)
  have direction_eq : ∀ x ∈ (Firing.previous? fs).map Firing.direction, shots.direction = x := by
    intro x inside
    obtain ⟨f, member, rfl⟩ := Option.map_eq_some_iff.1 inside
    exact (remembered f member).1
  have speed_eq : ∀ x ∈ (Firing.previous? fs).map Firing.speed, shots.speed = x := by
    intro x inside
    obtain ⟨f, member, rfl⟩ := Option.map_eq_some_iff.1 inside
    exact (remembered f member).2
  let bullet? := Ammunition.ofPlans? frames q.children
  let value := env.shotValue frames bullet?
  have aims := (ShotLaw.direction env.host).next_gives value direction shots.direction
    (count Firing.direction) direction_eq a
  rw [← shotDirection_eq] at aims
  have speeds := ShotLaw.speed.next_gives value speed shots.speed (count Firing.speed) speed_eq
    ((env.shotDirection frames bullet? direction shots).run a).2
  rw [← shotSpeed_eq] at speeds
  unfold firing
  rw [run_shoot]
  refine ⟨⟨_, _, aims, speeds, rfl⟩, ?_, by simp⟩
  change shots.count + 1 = UInt32.ofNat (fs.length + 1)
  rw [counted, UInt32.ofNat_add]
  rfl

end Env

end Barrage
