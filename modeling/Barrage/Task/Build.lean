import Barrage.Task.Host

/-!
From nodes to plans. References are followed in place: an action reference becomes a task with the
values of its arguments and the action that it names below it, a fire reference becomes the fire
that it names. Arguments and the numbers of passes are computed here, once. Patterns may refer to
themselves, so the number of tasks and the depth of references are bounded.
-/

set_option autoImplicit false

namespace Barrage

inductive RunError where
  | unresolved (kind : Kind) (node : NodeId)
  | tooManyTasks
  | tooDeep (node : NodeId)
  deriving DecidableEq, Repr

namespace Limit

def tasks : Nat := 100000

def expansion : Nat := 64

end Limit

namespace RunError

def code : RunError → Code
  | unresolved .. => .unresolvedAtRun
  | tooManyTasks | tooDeep _ => .taskLimitExceeded

def message : RunError → String
  | unresolved kind node => s!"Internal error: <{kind.name}> #{node} was never resolved"
  | tooManyTasks => s!"Task tree exceeds {Limit.tasks} tasks"
  | tooDeep node => s!"Reference expansion deeper than {Limit.expansion} at #{node}"

end RunError

def Tree.wanted? (t : Tree) (i : NodeId) (kind : Kind) : Option Wanted :=
  (t.child? i kind).map fun c => ⟨t.policy c, t.expression c⟩

def Tree.childExpression? (t : Tree) (i : NodeId) (kind : Kind) : Option Expression :=
  (t.child? i kind).map t.expression

def Tree.simpleWork? (t : Tree) (i : NodeId) : Option Work :=
  match t.kind? i with
  | some .wait => some (.wait (t.expression i))
  | some .changeDirection => some (.turn (t.wanted? i .direction) (t.childExpression? i .term))
  | some .changeSpeed => some (.glide (t.wanted? i .speed) (t.childExpression? i .term))
  | some .accel =>
    some (.accelerate (t.wanted? i .horizontal) (t.wanted? i .vertical)
      (t.childExpression? i .term))
  | some .vanish => some .vanish
  | _ => none

/-- Where the values of a fire's shots come from. What the fire says itself goes before what its
bullet says. -/
def Tree.shotRule (t : Tree) (kind : Kind) (fire : NodeId) (bullet? : Option NodeId) : ShotRule :=
  let own := (t.wanted? fire kind).map fun w => (⟨w, false⟩ : ShotValue)
  let bullets := (bullet?.bind fun b => t.wanted? b kind).map fun w => (⟨w, true⟩ : ShotValue)
  let all := own.toList ++ bullets.toList
  { first? := all.find? fun v => v.policy ≠ .sequence
    later? := all.find? fun v => v.policy = .sequence }

structure Assembly (σ : Type) extends Stage σ where
  tasks : Nat := 0

/-- Making a plan; what the world was asked for stays asked for on a failure. -/
abbrev Assembling (σ : Type) := ExceptT RunError (StateM (Assembly σ))

namespace Assembly

variable {F σ : Type} [Scalar F]

def staged {α : Type} (x : Staged σ α) : Assembling σ α :=
  ExceptT.lift (modifyGet fun a =>
    let (r, s) := x.run a.toStage
    (r, { a with toStage := s }))

def claim : Assembling σ Unit := do
  let a ← get
  if a.tasks ≥ Limit.tasks then throw .tooManyTasks
  else set { a with tasks := a.tasks + 1 }

variable (p : Pattern) (h : Host F σ)

/-- How often an action is done: once, or as often as the repeat around it says. -/
def passes (outer : Frames F) (i : NodeId) : Assembling σ Int :=
  match p.repeat? i with
  | none => pure 1
  | some around =>
    match p.tree.childExpression? around .times with
    | none => pure 0
    | some times => do
      let x ← staged (h.evaluate outer times)
      pure (Scalar.floor x)

def arguments (outer : Frames F) (i : NodeId) : Assembling σ (List F) :=
  (p.tree.childrenOfKind i .param).mapM fun c =>
    staged (h.evaluate outer (p.tree.expression c))

def bulletHolder (outer : Frames F) (i : NodeId) : Assembling σ (List (Plan F)) :=
  match p.tree.kind? i with
  | some .bulletRef =>
    match p.target? i with
    | none => throw (.unresolved .bulletRef i)
    | some target => do
      let args ← arguments p h outer i
      claim
      pure [.mk target args .sequence []]
  | some .bullet => do
    claim
    pure [.mk i [] .sequence []]
  | _ => pure []

/-- The task of a fire. The last bullet below it is the one that is given off. -/
def fire (outer : Frames F) (args : List F) (i : NodeId) : Assembling σ (Plan F) := do
  claim
  let holders ← (p.tree.children i).mapM (bulletHolder p h (args :: outer))
  let holders := holders.flatten
  let bullet? := holders.getLast?.map Plan.node
  pure (.mk i args
    (.fire (p.tree.shotRule .direction i bullet?) (p.tree.shotRule .speed i bullet?)) holders)

def node (depth : Nat) (outer : Frames F) (i : NodeId) : Assembling σ (List (Plan F)) :=
  match p.tree.kind? i with
  | some .repeat => do
    claim
    let below ← (p.tree.childrenAbove i).mapM fun ⟨c, _h⟩ => node depth ([] :: outer) c
    pure [.mk i [] .again below.flatten]
  | some .action => do
    let bound ← passes p h outer i
    claim
    let below ← (p.tree.childrenAbove i).mapM fun ⟨c, _h⟩ => node depth ([] :: outer) c
    pure [.mk i [] (.action bound) below.flatten]
  | some .actionRef =>
    if _hd : depth < Limit.expansion then
      match p.target? i with
      | none => throw (.unresolved .actionRef i)
      | some target => do
        let bound ← passes p h outer i
        let args ← arguments p h outer i
        claim
        let innerBound ← passes p h (args :: outer) target
        claim
        let below ← (p.tree.childrenAbove target).mapM fun ⟨c, _h⟩ =>
          node (depth + 1) ([] :: args :: outer) c
        pure [.mk i args (.action bound) [.mk target [] (.action innerBound) below.flatten]]
    else throw (.tooDeep i)
  | some .fire => do
    let made ← fire p h outer [] i
    pure [made]
  | some .fireRef =>
    if depth < Limit.expansion then
      match p.target? i with
      | none => throw (.unresolved .fireRef i)
      | some target => do
        let args ← arguments p h outer i
        let made ← fire p h outer args target
        pure [made]
    else throw (.tooDeep i)
  | _ =>
    match p.tree.simpleWork? i with
    | some work => do
      claim
      pure [.mk i [] work []]
    | none => pure []
termination_by (Limit.expansion - depth, p.tree.size - i)
decreasing_by
  · exact Prod.Lex.right _ (Nat.sub_lt_sub_left (Nat.lt_trans _h.1 _h.2) _h.1)
  · exact Prod.Lex.right _ (Nat.sub_lt_sub_left (Nat.lt_trans _h.1 _h.2) _h.1)
  · exact Prod.Lex.left _ _ (Nat.sub_lt_sub_left _hd (Nat.lt_succ_self depth))

def root (scope : Frames F) (i : NodeId) : Assembling σ (Plan F) := do
  claim
  let below ← (p.tree.children i).mapM (node p h 0 ([] :: scope))
  pure (.mk i [] .sequence below.flatten)

end Assembly

def Plan.build {F σ : Type} [Scalar F] (h : Host F σ) (p : Pattern) (scope : Frames F)
    (i : NodeId) : Staged σ (Except RunError (Plan F)) :=
  modifyGet fun s =>
    let (outcome, a) := (Assembly.root p h scope i).run.run { toStage := s }
    (outcome, a.toStage)

end Barrage
