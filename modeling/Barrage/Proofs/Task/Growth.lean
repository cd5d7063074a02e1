import Barrage.Proofs.Task.Entries
import Mathlib.Data.List.Induction

/-!
Making the tasks of an entity one by one, in a list that grows. Each task is added as it is met,
below a task that is there already; arguments are looked up by going from task to task towards the
first one, and a fire settles where its values come from when its bullet is there. What comes out is
the list of tasks of the plan that is made for the same node, and there is a list just if there is a
plan.
-/

set_option autoImplicit false

namespace Barrage

variable {F σ : Type}

structure Growth (F σ : Type) extends Stage σ where
  entries : List (Entry F) := []

/-- Making tasks; what the world was asked for stays asked for on a failure. -/
abbrev Growing (F σ : Type) := ExceptT RunError (StateM (Growth F σ))

namespace Entry

/-- The arguments of a task and of all tasks above it, and then those around all tasks. Of each task
there are the arguments and the owner, the last task first; owners come before what they own. -/
def framesAt (scope : Frames F) (id? : Option Nat) : List (List F × Option Nat) → Frames F
  | [] => scope
  | (args, owner?) :: before =>
    if id? = some before.length then args :: framesAt scope owner? before
    else framesAt scope id? before

def outline (entries : List (Entry F)) : List (List F × Option Nat) :=
  entries.map fun e => (e.args, e.owner?)

def frames (scope : Frames F) (entries : List (Entry F)) (id : Nat) : Frames F :=
  framesAt scope (some id) (outline entries).reverse

def nodeOf? (entries : List (Entry F)) (id : Nat) : Option NodeId := entries[id]?.map node

/-- The values that the nodes of some tasks give, each computed with the task's own arguments. -/
def origins (t : Tree) (entries : List (Entry F)) (kind : Kind) (contexts : List Nat) : Origins :=
  let all := contexts.filterMap fun context =>
    ((nodeOf? entries context).bind fun i => t.wanted? i kind).map fun w =>
      (⟨w, context⟩ : Origin)
  { first? := all.find? fun o => o.wanted.policy ≠ .sequence
    later? := all.find? fun o => o.wanted.policy = .sequence }

end Entry

namespace Growth

def assembly (g : Growth F σ) : Assembly σ := { toStage := g.toStage, tasks := g.entries.length }

def push (e : Entry F) : Growing F σ Nat := do
  let g ← get
  if g.entries.length ≥ Limit.tasks then throw .tooManyTasks
  else
    set { g with entries := Entry.push g.entries e }
    pure g.entries.length

def within {α : Type} (scope : Frames F) (id : Nat) (x : Frames F → Assembling σ α) :
    Growing F σ α :=
  ExceptT.mk fun g =>
    let (outcome, a) := (x (Entry.frames scope g.entries id)).run.run g.assembly
    (outcome, { g with toStage := a.toStage })

def equip (id : Nat) (role : Role) : Growing F σ Unit :=
  modify fun g => { g with entries := Entry.equip id role g.entries }

variable [Scalar F] (p : Pattern) (h : Host F σ) (scope : Frames F)

/-- Adds the task that holds the arguments of a bullet, if a node below a fire is one. -/
def hold (fire : Nat) (holder? : Option Nat) (i : NodeId) : Growing F σ (Option Nat) :=
  match p.tree.kind? i with
  | some .bulletRef =>
    match p.target? i with
    | none => throw (.unresolved .bulletRef i)
    | some target => do
      let args ← within scope fire fun outer => Assembly.arguments p h outer i
      let id ← push { node := target, args, role := .work .sequence, owner? := some fire }
      pure (some id)
  | some .bullet => do
    let id ← push { node := i, args := [], role := .work .sequence, owner? := some fire }
    pure (some id)
  | _ => pure holder?

/-- Adds a fire. What the fire says itself goes before what its last bullet says. -/
def fire (parent : Nat) (args : List F) (i : NodeId) : Growing F σ Unit := do
  let fire ← push { node := i, args, role := .fire none {} {}, owner? := some parent }
  let holder? ← (p.tree.children i).foldlM (hold p h scope fire) none
  let g ← get
  let contexts := fire :: holder?.toList
  equip fire (.fire holder? (Entry.origins p.tree g.entries .direction contexts)
    (Entry.origins p.tree g.entries .speed contexts))

def node (depth parent : Nat) (i : NodeId) : Growing F σ Unit :=
  match p.tree.kind? i with
  | some .repeat => do
    let id ← push { node := i, args := [], role := .work .again, owner? := some parent }
    (p.tree.childrenAbove i).forM fun ⟨c, _h⟩ => node depth id c
  | some .action => do
    let bound ← within scope parent fun outer => Assembly.passes p h outer i
    let id ← push { node := i, args := [], role := .work (.action bound), owner? := some parent }
    (p.tree.childrenAbove i).forM fun ⟨c, _h⟩ => node depth id c
  | some .actionRef =>
    if _hd : depth < Limit.expansion then
      match p.target? i with
      | none => throw (.unresolved .actionRef i)
      | some target => do
        let bound ← within scope parent fun outer => Assembly.passes p h outer i
        let args ← within scope parent fun outer => Assembly.arguments p h outer i
        let id ← push { node := i, args, role := .work (.action bound), owner? := some parent }
        let innerBound ← within scope id fun outer => Assembly.passes p h outer target
        let inner ← push
          { node := target, args := [], role := .work (.action innerBound), owner? := some id }
        (p.tree.childrenAbove target).forM fun ⟨c, _h⟩ => node (depth + 1) inner c
    else throw (.tooDeep i)
  | some .fire => fire p h scope parent [] i
  | some .fireRef =>
    if depth < Limit.expansion then
      match p.target? i with
      | none => throw (.unresolved .fireRef i)
      | some target => do
        let args ← within scope parent fun outer => Assembly.arguments p h outer i
        fire p h scope parent args target
    else throw (.tooDeep i)
  | _ =>
    match p.tree.simpleWork? i with
    | some work => do
      let _ ← push { node := i, args := [], role := .work work, owner? := some parent }
    | none => pure ()
termination_by (Limit.expansion - depth, p.tree.size - i)
decreasing_by
  · exact Prod.Lex.right _ (Nat.sub_lt_sub_left (Nat.lt_trans _h.1 _h.2) _h.1)
  · exact Prod.Lex.right _ (Nat.sub_lt_sub_left (Nat.lt_trans _h.1 _h.2) _h.1)
  · exact Prod.Lex.left _ _ (Nat.sub_lt_sub_left _hd (Nat.lt_succ_self depth))

def root (i : NodeId) : Growing F σ Unit := do
  let id ← push { node := i, args := [], role := .work .sequence, owner? := none }
  (p.tree.children i).forM (node p h scope 0 id)

def build (i : NodeId) : Staged σ (Except RunError (List (Entry F))) :=
  modifyGet fun s =>
    let (outcome, g) := (root p h scope i).run.run { toStage := s }
    (outcome.map fun _ => g.entries, g.toStage)

/-! ## Arguments in scope -/

end Growth

namespace Entry

theorem outline_adopt (owner? : Option Nat) (further : List Nat) (entries : List (Entry F)) :
    outline (adopt owner? further entries) = outline entries := by
  cases owner? with
  | none => rfl
  | some owner =>
    refine List.ext_getElem? fun k => ?_
    unfold outline
    rw [List.getElem?_map, getElem?_adopt, List.getElem?_map, Option.map_map]
    rfl

theorem framesAt_append (scope : Frames F) {id : Nat} {front : List (List F × Option Nat)}
    (inside : id < front.length) (back : List (List F × Option Nat)) :
    framesAt scope (some id) (front ++ back).reverse = framesAt scope (some id) front.reverse := by
  induction back using List.reverseRecOn with
  | nil => rw [List.append_nil]
  | append_singleton back last ih =>
    have other : some id ≠ some (front ++ back).reverse.length := by
      rw [List.length_reverse, List.length_append]
      intro same
      have := Option.some.inj same
      omega
    rw [← List.append_assoc, List.reverse_append, List.reverse_singleton, List.singleton_append,
      framesAt, if_neg other, ih]

structure Scoped (scope : Frames F) (entries : List (Entry F)) (id : Nat) (outer : Frames F) :
    Prop where
  inside : id < entries.length
  frames : Entry.frames scope entries id = outer

namespace Scoped

variable {scope outer : Frames F} {entries : List (Entry F)} {id : Nat}

theorem extend (here : Scoped scope entries id outer) {entries' : List (Entry F)}
    (back : List (Entry F)) (further : outline entries' = outline entries ++ outline back) :
    Scoped scope entries' id outer where
  inside := by
    have length := congrArg List.length further
    simp only [outline, List.length_append, List.length_map] at length
    exact Nat.lt_of_lt_of_le here.inside (by omega)
  frames := by
    rw [Entry.frames, further, framesAt_append scope (by simpa [outline] using here.inside)]
    exact here.frames

theorem plant (here : Scoped scope entries id outer) (owner : Nat) (ps : List (Plan F)) :
    Scoped scope (Entry.plant entries owner ps) id outer := by
  refine here.extend (ofPlans entries.length (some owner) ps) ?_
  rw [Entry.plant, outline, List.map_append, ← outline, outline_adopt]
  rfl

theorem push {e : Entry F} (above : e.owner? = some id) (here : Scoped scope entries id outer) :
    Scoped scope (Entry.push entries e) entries.length (e.args :: outer) where
  inside := by simp [Entry.push]
  frames := by
    have shape : outline (Entry.push entries e) = outline entries ++ [(e.args, some id)] := by
      rw [Entry.push, outline, List.map_append, ← outline, outline_adopt, ← above]
      rfl
    have last : some entries.length = some (outline entries).reverse.length := by
      simp [outline]
    rw [Entry.frames, shape, List.reverse_append, List.reverse_singleton, List.singleton_append,
      framesAt, if_pos last, ← here.frames]
    rfl

end Scoped

/-! ## Where values come from -/

variable {entries : List (Entry F)}

theorem nodeOf?_plant_push (entries : List (Entry F)) {e : Entry F} (alone : e.children = [])
    (ps : List (Plan F)) :
    nodeOf? (plant (push entries e) entries.length ps) entries.length = some e.node := by
  unfold nodeOf?
  rw [plant_push entries alone, List.getElem?_append_right (by simp), length_adopt, Nat.sub_self]
  rfl

theorem nodeOf?_last {owner : Nat} (inside : owner < entries.length) (ps : List (Plan F)) :
    ps.getLast?.map Plan.node =
      (TaskRow.indices entries.length ps).getLast?.bind (nodeOf? (plant entries owner ps)) := by
  induction ps using List.reverseRecOn with
  | nil => rfl
  | append_singleton ps p _ =>
    rw [List.getLast?_concat, indices_append, TaskRow.indices, TaskRow.indices,
      List.getLast?_concat, ← plant_append inside, plant_singleton, graft,
      ← length_plant entries owner, Option.bind_some, nodeOf?,
      List.getElem?_append_right (by simp), length_adopt, Nat.sub_self]
    cases p
    rfl

/-- The values of a fire come from the fire and from what holds its bullet's arguments. -/
theorem origins_eq {t : Tree} {kind : Kind} {fire : Nat} {i : NodeId} {holder? : Option Nat}
    {bullet? : Option NodeId} (own : nodeOf? entries fire = some i)
    (bullet : bullet? = holder?.bind (nodeOf? entries)) :
    origins t entries kind (fire :: holder?.toList) =
      (t.shotRule kind i bullet?).origins fire holder? := by
  -- what the fire and its bullet say, with the task that says it
  have said : ((fire :: holder?.toList).filterMap fun context =>
      ((nodeOf? entries context).bind fun i => t.wanted? i kind).map fun w =>
        (⟨w, context⟩ : Origin)) =
      (((t.wanted? i kind).map fun w => (⟨w, false⟩ : ShotValue)).toList ++
        ((bullet?.bind fun b => t.wanted? b kind).map fun w => (⟨w, true⟩ : ShotValue)).toList).map
          (·.origin fire holder?) := by
    subst bullet
    cases holder? with
    | none =>
      simp only [Option.toList_none, List.filterMap_cons, own, Option.bind_some]
      cases t.wanted? i kind <;> rfl
    | some holder =>
      simp only [Option.toList_some, List.filterMap_cons, own, Option.bind_some]
      cases t.wanted? i kind <;>
        cases (nodeOf? entries holder).bind fun b => t.wanted? b kind <;> rfl
  unfold origins Tree.shotRule ShotRule.origins
  dsimp only
  rw [said, List.find?_map, List.find?_map]
  rfl

end Entry

namespace Growth

/-! ## Alongside a plan -/

section Following

variable {α β γ δ : Type}

theorem run_push (e : Entry F) (g : Growth F σ) : (push e).run.run g =
    if g.entries.length ≥ Limit.tasks then (.error .tooManyTasks, g)
    else (.ok g.entries.length, { g with entries := Entry.push g.entries e }) := by
  have read : (get : Growing F σ (Growth F σ)).run.run g = (.ok g, g) := rfl
  rw [push, Ends.run_eq_bind, read]
  dsimp only
  split <;> rfl

theorem run_within (scope : Frames F) (id : Nat) (x : Frames F → Assembling σ α)
    (g : Growth F σ) : (within scope id x).run.run g =
      let done := (x (Entry.frames scope g.entries id)).run.run g.assembly
      (done.1, { g with toStage := done.2.toStage }) :=
  rfl

/-- How a list and a plan have come along: both are further, or both have failed for one reason and
in one world. -/
inductive Alongside (after : α → β → List (Entry F) → Prop) :
    Except RunError α × Growth F σ → Except RunError β × Assembly σ → Prop where
  | ok {a : α} {b : β} {g : Growth F σ} (holds : after a b g.entries)
      (bounded : g.entries.length ≤ Limit.tasks) :
      Alongside after (.ok a, g) (.ok b, g.assembly)
  | error {e : RunError} {g : Growth F σ} {a : Assembly σ} (stage : g.toStage = a.toStage) :
      Alongside after (.error e, g) (.error e, a)

/-- A part of making a list follows a part of making a plan, from a list on. -/
def Follows (entries : List (Entry F)) (x : Growing F σ α) (y : Assembling σ β)
    (after : α → β → List (Entry F) → Prop) : Prop :=
  ∀ g : Growth F σ, g.entries = entries → entries.length ≤ Limit.tasks →
    Alongside after (x.run.run g) (y.run.run g.assembly)

namespace Follows

variable {entries : List (Entry F)} {x : Growing F σ α} {y : Assembling σ β}
  {f : α → Growing F σ γ} {f' : β → Assembling σ δ} {between : α → β → List (Entry F) → Prop}
  {after : γ → δ → List (Entry F) → Prop}

theorem pure {after : α → β → List (Entry F) → Prop} {a : α} {b : β} (holds : after a b entries) :
    Follows (σ := σ) entries (pure a) (pure b) after := by
  rintro g rfl bounded
  exact .ok holds bounded

theorem throw {after : α → β → List (Entry F) → Prop} (e : RunError) :
    Follows (σ := σ) entries (throw e) (throw e) after :=
  fun _ _ _ => .error rfl

theorem bind (first : Follows entries x y between)
    (next : ∀ a b entries', between a b entries' → Follows entries' (f a) (f' b) after) :
    Follows entries (x >>= f) (y >>= f') after := by
  intro g same bounded
  rw [Ends.run_eq_bind, Ends.run_eq_bind]
  have along := first g same bounded
  generalize x.run.run g = r at along ⊢
  generalize y.run.run g.assembly = r' at along ⊢
  cases along with
  | ok holds bounded => exact next _ _ _ holds _ rfl bounded
  | error stage => exact .error stage

theorem bindPush {e : Entry F} {f : Nat → Growing F σ γ} {f' : Unit → Assembling σ δ}
    (next : Follows (Entry.push entries e) (f entries.length) (f' ()) after) :
    Follows entries (push e >>= f) (Assembly.claim >>= f') after := by
  have pushed : Follows (σ := σ) entries (push e) Assembly.claim
      fun id _ entries' => id = entries.length ∧ entries' = Entry.push entries e := by
    rintro g rfl bounded
    rw [run_push, Assembly.run_claim]
    by_cases full : g.entries.length ≥ Limit.tasks
    · rw [if_pos full, if_pos (show g.assembly.tasks ≥ Limit.tasks from full)]
      exact .error rfl
    · have length : (Entry.push g.entries e).length = g.entries.length + 1 := by
        simp [Entry.push]
      rw [if_neg full, if_neg (show ¬ g.assembly.tasks ≥ Limit.tasks from full)]
      let g' : Growth F σ := { g with entries := Entry.push g.entries e }
      have next : g'.assembly = { toStage := g.toStage, tasks := g.entries.length + 1 } :=
        congrArg (Assembly.mk g.toStage) length
      change Alongside _ (.ok g.entries.length, g') (.ok (), { toStage := _, tasks := _ + 1 })
      rw [assembly, ← next]
      exact .ok ⟨rfl, rfl⟩ (by dsimp only [g']; omega)
  refine pushed.bind ?_
  rintro _ _ _ ⟨rfl, rfl⟩
  exact next

theorem bindWithin {scope outer : Frames F} {id : Nat} {x : Frames F → Assembling σ α}
    {f : α → Growing F σ γ} {f' : α → Assembling σ δ}
    (here : Entry.frames scope entries id = outer)
    (idle : Assembly.Makes (x outer) (fun n _ => n = 0) True)
    (next : ∀ a, Follows entries (f a) (f' a) after) :
    Follows entries (within scope id x >>= f) (x outer >>= f') after := by
  have computed : Follows entries (within scope id x) (x outer)
      fun a b entries' => a = b ∧ entries' = entries := by
    rintro g rfl bounded
    have ending := idle g.assembly bounded
    rw [run_within, here]
    generalize (x outer).run.run g.assembly = r at ending ⊢
    cases ending with
    | @ok a now _ unchanged counted _ =>
      subst unchanged
      let g' : Growth F σ := { g with toStage := now.toStage }
      have next : now = g'.assembly := congrArg (Assembly.mk now.toStage) counted
      change Alongside _ (.ok a, g') (.ok a, now)
      rw [next]
      exact .ok ⟨rfl, rfl⟩ bounded
    | full _ => exact .error rfl
    | deep _ _ => exact .error rfl
  refine computed.bind ?_
  rintro _ b _ ⟨rfl, rfl⟩
  exact next _

theorem thenPure {after : α → δ → List (Entry F) → Prop} {g : β → δ}
    (first : Follows entries x y between)
    (next : ∀ a b entries', between a b entries' → after a (g b) entries') :
    Follows entries x (y >>= fun b => Pure.pure (g b)) after := by
  rw [← bind_pure x]
  exact first.bind fun a b entries' holds => .pure (next a b entries' holds)

theorem mono {after : α → β → List (Entry F) → Prop} (first : Follows entries x y between)
    (weaker : ∀ a b entries', between a b entries' → after a b entries') :
    Follows entries x y after := by
  rw [← bind_pure y]
  exact first.thenPure weaker

theorem settle {after : Unit → β → List (Entry F) → Prop} {id : Nat} {b : β}
    (role : List (Entry F) → Role)
    (holds : after () b (Entry.equip id (role entries) entries)) :
    Follows (σ := σ) entries (do let g ← get; equip id (role g.entries)) (Pure.pure b) after := by
  rintro g rfl bounded
  have length : (Entry.equip id (role g.entries) g.entries).length = g.entries.length :=
    List.length_modify ..
  have along := Alongside.ok (g := { g with entries := Entry.equip id (role g.entries) g.entries })
    holds (length ▸ bounded)
  rw [assembly, length] at along
  exact along

end Follows

/-- A part of making a list adds the tasks of the plans that a part of making a plan comes to, below
a task and where this has some arguments in scope. -/
def Plants (scope : Frames F) (owner : Nat) (outer : Frames F) (x : Growing F σ Unit)
    (y : Assembling σ (List (Plan F))) : Prop :=
  ∀ entries, Entry.Scoped scope entries owner outer →
    Follows entries x y fun _ ps entries' => entries' = Entry.plant entries owner ps

theorem Plants.forM {scope outer : Frames F} {owner : Nat} {f : γ → Growing F σ Unit}
    {f' : γ → Assembling σ (List (Plan F))} {cs : List γ}
    (each : ∀ c ∈ cs, Plants scope owner outer (f c) (f' c)) {entries : List (Entry F)}
    (here : Entry.Scoped scope entries owner outer) :
    Follows entries (cs.forM f) (cs.mapM f')
      fun _ pss entries' => entries' = Entry.plant entries owner pss.flatten := by
  induction cs generalizing entries with
  | nil =>
    rw [List.mapM_nil]
    exact .pure (Entry.plant_nil entries owner).symm
  | cons c cs ih =>
    rw [List.mapM_cons]
    refine (each c List.mem_cons_self entries here).bind ?_
    rintro _ ps _ rfl
    have rest := ih (fun d member => each d (List.mem_cons_of_mem _ member)) (here.plant owner ps)
    refine rest.thenPure ?_
    rintro _ pss _ rfl
    exact Entry.plant_append here.inside ps pss.flatten

end Following

variable [Scalar F] {p : Pattern} {h : Host F σ} {scope : Frames F}

theorem Follows.bindPasses {γ δ : Type} {outer : Frames F} {id : Nat} {i : NodeId}
    {entries : List (Entry F)} {f : Int → Growing F σ γ} {f' : Int → Assembling σ δ}
    {after : γ → δ → List (Entry F) → Prop} (here : Entry.Scoped scope entries id outer)
    (next : ∀ bound, Follows entries (f bound) (f' bound) after) :
    Follows entries (within scope id (fun outer => Assembly.passes p h outer i) >>= f)
      (Assembly.passes p h outer i >>= f') after :=
  .bindWithin here.frames (Assembly.makes_passes h outer i) next

theorem Follows.bindArguments {γ δ : Type} {outer : Frames F} {id : Nat} {i : NodeId}
    {entries : List (Entry F)} {f : List F → Growing F σ γ} {f' : List F → Assembling σ δ}
    {after : γ → δ → List (Entry F) → Prop} (here : Entry.Scoped scope entries id outer)
    (next : ∀ args, Follows entries (f args) (f' args) after) :
    Follows entries (within scope id (fun outer => Assembly.arguments p h outer i) >>= f)
      (Assembly.arguments p h outer i >>= f') after :=
  .bindWithin here.frames (Assembly.makes_arguments h outer i) next

/-! ## Fires -/

/-- The last task below a fire is the one that holds the arguments of its bullet. -/
theorem follows_hold {fire : Nat} {outer : Frames F} {entries : List (Entry F)}
    (here : Entry.Scoped scope entries fire outer) (qs : List (Plan F)) (i : NodeId) :
    Follows (Entry.plant entries fire qs)
      (hold p h scope fire (TaskRow.indices entries.length qs).getLast? i)
      (Assembly.bulletHolder p h outer i) fun holder? ps entries' =>
        entries' = Entry.plant entries fire (qs ++ ps) ∧
          holder? = (TaskRow.indices entries.length (qs ++ ps)).getLast? := by
  -- one more task below the fire
  have one : ∀ {args : List F} {i : NodeId},
      Entry.push (Entry.plant entries fire qs)
          { node := i, args, role := .work .sequence, owner? := some fire } =
        Entry.plant entries fire (qs ++ [.mk i args .sequence []]) ∧
      some (Entry.plant entries fire qs).length =
        (TaskRow.indices entries.length (qs ++ [.mk i args .sequence []])).getLast? := by
    intro args i
    constructor
    · rw [← Entry.plant_append here.inside]
      exact Entry.push_eq_plant _ rfl rfl rfl
    · rw [Entry.indices_append, Entry.length_plant, TaskRow.indices, TaskRow.indices,
        List.getLast?_append_cons]
      rfl
  have idle : Follows (σ := σ) (Entry.plant entries fire qs)
      (pure (TaskRow.indices entries.length qs).getLast?) (pure []) fun holder? ps entries' =>
        entries' = Entry.plant entries fire (qs ++ ps) ∧
          holder? = (TaskRow.indices entries.length (qs ++ ps)).getLast? := by
    refine .pure ?_
    rw [List.append_nil]
    exact ⟨rfl, rfl⟩
  unfold hold Assembly.bulletHolder
  cases p.tree.kind? i with
  | none => exact idle
  | some k =>
    cases k with
    | bulletRef =>
      dsimp only
      cases p.target? i with
      | none => exact .throw _
      | some target => exact .bindArguments (here.plant fire qs) fun args => .bindPush (.pure one)
    | bullet => exact .bindPush (.pure one)
    | _ => exact idle

theorem follows_holders {fire : Nat} {outer : Frames F} {entries : List (Entry F)}
    (here : Entry.Scoped scope entries fire outer) (qs : List (Plan F)) (cs : List NodeId) :
    Follows (Entry.plant entries fire qs)
      (cs.foldlM (hold p h scope fire) (TaskRow.indices entries.length qs).getLast?)
      (cs.mapM (Assembly.bulletHolder p h outer)) fun holder? pss entries' =>
        entries' = Entry.plant entries fire (qs ++ pss.flatten) ∧
          holder? = (TaskRow.indices entries.length (qs ++ pss.flatten)).getLast? := by
  induction cs generalizing qs with
  | nil =>
    rw [List.foldlM_nil, List.mapM_nil]
    refine .pure ?_
    rw [List.flatten_nil, List.append_nil]
    exact ⟨rfl, rfl⟩
  | cons c cs ih =>
    rw [List.foldlM_cons, List.mapM_cons]
    refine (follows_hold here qs c).bind ?_
    rintro _ ps _ ⟨rfl, rfl⟩
    refine (ih (qs ++ ps)).thenPure fun _ pss _ same => ?_
    rwa [List.flatten_cons, ← List.append_assoc]

theorem follows_fire {parent : Nat} {outer : Frames F} (args : List F)
    (i : NodeId) {entries : List (Entry F)} (here : Entry.Scoped scope entries parent outer) :
    Follows entries (fire p h scope parent args i) (Assembly.fire p h outer args i)
      fun _ plan entries' => entries' = Entry.graft entries (some parent) plan := by
  let e : Entry F := { node := i, args, role := .fire none {} {}, owner? := some parent }
  have pushed := here.push (e := e) rfl
  refine .bindPush ?_
  have holders := follows_holders (p := p) (h := h) pushed [] (p.tree.children i)
  simp only [Entry.plant_nil, List.nil_append] at holders
  refine holders.bind ?_
  rintro holder? pss _ ⟨rfl, rfl⟩
  let contexts := entries.length ::
    (TaskRow.indices (Entry.push entries e).length pss.flatten).getLast?.toList
  refine .settle (fun es => .fire _ (Entry.origins p.tree es .direction contexts)
    (Entry.origins p.tree es .speed contexts)) ?_
  have length : (Entry.push entries e).length = entries.length + 1 := by simp [Entry.push]
  have own := Entry.nodeOf?_plant_push entries (e := e) rfl pss.flatten
  have last := Entry.nodeOf?_last pushed.inside pss.flatten
  rw [Entry.origins_eq own last, Entry.origins_eq own last, length]
  exact Entry.equip_plant_push entries (e := e) rfl (.fire _ _) _

/-! ## All tasks -/

theorem follows_task {depth parent : Nat} {outer : Frames F} {entries : List (Entry F)}
    {i : NodeId} {args : List F} {w : Work} (settled : ∀ id children, .work w = w.role id children)
    (each : ∀ c ∈ p.tree.childrenAbove i, ∀ {parent : Nat} {outer : Frames F},
      Plants scope parent outer (node p h scope depth parent c.1)
        (Assembly.node p h depth outer c.1))
    (here : Entry.Scoped scope entries parent outer) :
    Follows (Entry.push entries { node := i, args, role := .work w, owner? := some parent })
      ((p.tree.childrenAbove i).forM fun c => node p h scope depth entries.length c.1)
      ((p.tree.childrenAbove i).mapM fun c => Assembly.node p h depth (args :: outer) c.1)
      fun _ pss entries' =>
        entries' = Entry.graft entries (some parent) (.mk i args w pss.flatten) := by
  let e : Entry F := { node := i, args, role := .work w, owner? := some parent }
  refine (Plants.forM (fun c member => each c member) (here.push (e := e) rfl)).mono ?_
  rintro _ pss _ rfl
  exact Entry.plant_push_settled entries (e := e) rfl (settled _ _)

theorem plants_node (depth : Nat) (i : NodeId) {parent : Nat} {outer : Frames F} :
    Plants scope parent outer (node p h scope depth parent i)
      (Assembly.node p h depth outer i) := by
  induction depth, i using Assembly.node_induction p generalizing parent outer with
  | step depth i below beyond =>
    intro entries here
    -- one task for the node itself
    have single : ∀ {plan : Plan F} {entries' : List (Entry F)},
        entries' = Entry.graft entries (some parent) plan →
          entries' = Entry.plant entries parent [plan] :=
      fun same => same.trans (Entry.plant_singleton entries parent _).symm
    have other : Follows entries
        (match p.tree.simpleWork? i with
          | some work => do
            let _ ← push { node := i, args := [], role := .work work, owner? := some parent }
          | none => pure () : Growing F σ Unit)
        (match p.tree.simpleWork? i with
          | some work => do
            Assembly.claim
            pure [.mk i [] work []]
          | none => pure [])
        fun _ ps entries' => entries' = Entry.plant entries parent ps := by
      cases simple : p.tree.simpleWork? i with
      | none => exact .pure (Entry.plant_nil entries parent).symm
      | some work =>
        exact .bindPush (.pure (Entry.push_eq_plant entries rfl
          (Work.role_of_not_fires (fires_of_simpleWork? simple) _ _).symm rfl))
    rw [node, Assembly.node]
    cases ofKind : p.tree.kind? i with
    | none => exact other
    | some k =>
      cases k with
      | «repeat» =>
        refine .bindPush (Follows.thenPure ?_ fun _ pss _ same => single same)
        exact follows_task (fun _ _ => rfl) (fun c _ _ _ => below c.1 c.2) here
      | action =>
        refine .bindPasses here fun bound => ?_
        refine .bindPush (Follows.thenPure ?_ fun _ pss _ same => single same)
        exact follows_task (fun _ _ => rfl) (fun c _ _ _ => below c.1 c.2) here
      | actionRef =>
        dsimp only
        split
        · next shallow =>
          cases p.target? i with
          | none => exact .throw _
          | some target =>
            refine .bindPasses here fun bound => ?_
            refine .bindArguments here fun args => ?_
            refine .bindPush ?_
            let e : Entry F :=
              { node := i, args, role := .work (.action bound), owner? := some parent }
            have pushed := here.push (e := e) rfl
            refine .bindPasses pushed fun innerBound => ?_
            refine .bindPush (Follows.thenPure (follows_task (fun _ _ => rfl)
              (fun c _ _ _ => beyond shallow c.1) pushed) ?_)
            rintro _ pss _ rfl
            refine single ?_
            rw [← Entry.plant_singleton]
            exact Entry.plant_push_settled entries (e := e) rfl rfl
        · exact .throw _
      | fire =>
        exact (follows_fire [] i here).thenPure fun _ _ _ => single
      | fireRef =>
        dsimp only
        split
        · cases p.target? i with
          | none => exact .throw _
          | some target =>
            refine .bindArguments here fun args => ?_
            exact (follows_fire args target here).thenPure fun _ _ _ => single
        · exact .throw _
      | _ => exact other

theorem follows_root (i : NodeId) :
    Follows [] (root p h scope i) (Assembly.root p h scope i)
      fun _ plan entries' => entries' = Entry.ofPlan 0 none plan := by
  let e : Entry F := { node := i, args := [], role := .work .sequence, owner? := none }
  have first : Entry.Scoped scope (Entry.push [] e) 0 ([] :: scope) := ⟨Nat.one_pos, rfl⟩
  refine .bindPush ((Plants.forM (fun c _ => plants_node 0 c) first).thenPure ?_)
  rintro _ pss _ rfl
  rw [← Entry.graft_nil]
  exact Entry.plant_push_settled [] (e := e) rfl rfl

/-- Making a list of tasks comes to the tasks of the plan that is made, in the same world, or fails
for the same reason. -/
theorem build_eq (i : NodeId) :
    build p h scope i = (·.map (Entry.ofPlan 0 none)) <$> Plan.build h p scope i := by
  funext s
  have follows : Follows [] (root p h scope i) (Assembly.root p h scope i) _ := follows_root i
  have along := follows { toStage := s } rfl (Nat.zero_le _)
  have listed : build p h scope i s =
      let r := (root p h scope i).run.run { toStage := s }
      (r.1.map fun _ => r.2.entries, r.2.toStage) := rfl
  have planned : ((·.map (Entry.ofPlan 0 none)) <$> Plan.build h p scope i) s =
      let r := (Assembly.root p h scope i).run.run { toStage := s }
      (r.1.map (Entry.ofPlan 0 none), r.2.toStage) := rfl
  rw [listed, planned]
  change Alongside _ _ ((Assembly.root p h scope i).run.run { toStage := s }) at along
  generalize (root p h scope i).run.run { toStage := s } = r at along ⊢
  generalize (Assembly.root p h scope i).run.run { toStage := s } = r' at along ⊢
  cases along with
  | ok holds _ => exact Prod.ext (congrArg Except.ok holds) rfl
  | error stage => exact Prod.ext rfl stage

end Growth

end Barrage
