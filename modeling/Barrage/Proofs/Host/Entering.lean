import Barrage.Proofs.Host.Custody
import Barrage.Proofs.Pattern.EntryPoints
import Barrage.Proofs.Pattern.LinkedPattern
import Barrage.Proofs.Task.Bindable

/-!
How a pattern enters the world. The emitter's own entity is bound to the first entry point, and each
further one gets an entity of its own at the same place if the host makes one. Whether an entity can
be bound to an entry point is a matter of the pattern, so what becomes of one entry point is the
same whatever becomes of the others.
-/

set_option autoImplicit false

namespace Barrage

variable {F σ : Type}

/-- A host attaches each entity that it makes to the emitter that it is wanted for. -/
def Host.Attaches (h : Host F σ) : Prop :=
  ∀ wanted w made, (h.create wanted w).1 = some made → made.emitter? = some wanted.emitter

variable [Scalar F]

theorem Bullet.Binds.bindable {entity : Entity F} {p : Pattern} {node : NodeId}
    {scope? : Option (Frames F)} {emitter : EmitterId} {b : Bullet F}
    (binds : b.Binds entity p node scope? emitter) : p.Bindable node := by
  obtain ⟨τ, k, s, s', built⟩ := binds.bound.built_and_started.1
  rw [binds.pattern, binds.node] at built
  exact ⟨F, τ, _, k, b.scope, s, s', b.plan, built⟩

namespace Emitter

/-! ## Entry points -/

/-- What is asked for a further entry point: its bullet is given off exactly if the host makes an
entity and the node can be bound. -/
inductive Joins (id : EmitterId) (p : Pattern) (position : Vec F) (entry : NodeId) :
    Calls F → Prop where
  | refused : Joins id p position entry [.create ⟨id, position⟩ none]
  | spawned {made : Entity F} {b : Bullet F} (attached : made.emitter? = some id)
      (bindable : p.Bindable entry) (binds : b.Binds { made with position } p entry none id)
      (placed : b.entity.position = position) :
      Joins id p position entry [.create ⟨id, position⟩ (some made), .spawn b]
  | unbound {made : Entity F} (attached : made.emitter? = some id)
      (unbindable : ¬ p.Bindable entry) :
      Joins id p position entry
        [.create ⟨id, position⟩ (some made), .remove { made with position }]

inductive Begins (id : EmitterId) (entity : Entity F) (p : Pattern) :
    Except RunError (Emitter F) → Calls F → Prop where
  | inactive (noEntry : p.entryPoints = []) :
      Begins id entity p (.ok { id, pattern := p, root? := none }) [.remove entity]
  | failed {first : NodeId} {further : List NodeId} {e : RunError}
      (entries : p.entryPoints = first :: further) (unbindable : ¬ p.Bindable first) :
      Begins id entity p (.error e) [.remove entity]
  | active {first : NodeId} {further : List NodeId} {root : Bullet F} {deals : List (Calls F)}
      (entries : p.entryPoints = first :: further) (bindable : p.Bindable first)
      (binds : root.Binds entity p first none id)
      (others : List.Forall₂ (Joins id p entity.position) further deals) :
      Begins id entity p (.ok { id, pattern := p, root? := some root }) deals.flatten

variable {h : Host F σ} {id : EmitterId} {p : Pattern}

theorem EntryDeal.joins (attaches : h.Attaches) {position : Vec F} {entry : NodeId}
    {deal : Calls F} (asked : EntryDeal h id p position entry deal) :
    Joins id p position entry deal := by
  cases asked with
  | refused => exact .refused
  | bound supplied binds =>
    have placed := congrArg Entity.position binds.named
    exact .spawned (attaches _ _ _ supplied) binds.bindable binds placed
  | failed supplied noPlan =>
    exact .unbound (attaches _ _ _ supplied) (Pattern.not_bindable noPlan)

theorem Outcome.begins (attaches : h.Attaches) {entity : Entity F}
    {outcome : Except RunError (Emitter F)} {calls : Calls F}
    (ends : Outcome h id entity p outcome calls) : Begins id entity p outcome calls := by
  cases ends with
  | inactive noEntry => exact .inactive noEntry
  | failed entries noPlan => exact .failed entries (Pattern.not_bindable noPlan)
  | active entries binds others =>
    exact .active entries binds.bindable binds (others.imp fun _ _ deal => deal.joins attaches)

/-! ## Emitters without an entity -/

/-- What becomes of an emitter: hosts update it, each in its own way, or its entity is unbound. -/
inductive Goes (e : Emitter F) : Emitter F → Prop where
  | refl : Goes e e
  | update {τ : Type} {e' : Emitter F} (before : Goes e e') (k : Host F τ) (position : Vec F)
      (s : Stage τ) : Goes e ((e'.update k position).run s).1.2
  | detach {e' : Emitter F} (before : Goes e e') : Goes e e'.detach.2

variable {e e' : Emitter F}

theorem run_update_inactive (noRoot : e.root? = none) (k : Host F σ) (position : Vec F)
    (s : Stage σ) : (e.update k position).run s = ((none, e), s) := by
  unfold update
  rw [noRoot]
  rfl

theorem Goes.eq_of_inactive (goes : e.Goes e') (noRoot : e.root? = none) : e' = e := by
  induction goes with
  | refl => rfl
  | update before k position s same => rw [same, run_update_inactive noRoot k position s]
  | detach before same => rw [same, Emitter.detach, ← noRoot]

/-! ## Patterns of documents -/

/-- A pattern is entered at the actions of its document that are labelled so. Where the host
attaches what it makes, an emitter's own entity is bound to the first entry point, and for each
further one whose node can be bound the host is given a bullet at the same place, unless it makes no
entity. Whether a node can be bound is the same everywhere. An emitter of a pattern without entry
points has its entity removed and stays without one. -/
theorem enters_everywhere {root : Markup.Element} {d : Draft}
    (read : Draft.ofDocument root = (.ok (), d)) (tree : p.tree = d.tree) (attaches : h.Attaches)
    (id : EmitterId) (entity : Entity F) :
    Pattern.Entries root.HasAction p.entryPoints ∧
    Records Stage.noting (make h id entity p) (make h.recorded id entity p)
      (fun _ outcome _ calls => Begins id entity p outcome calls) ∧
    (∀ {τ : Type} (k : Host F τ) (other : Entity F) (scope? : Option (Frames F))
      (emitter : EmitterId) (entry : NodeId) (s : Stage τ),
      (∃ b, ((Bullet.bind k other p entry scope? emitter).run s).1 = .ok b) ↔ p.Bindable entry) ∧
    ∀ e : Emitter F, e.root? = none → ∀ e', e.Goes e' → e' = e ∧ e'.isActive = false ∧
      ∀ {τ : Type} (k : Host F τ) (position : Vec F) (s : Stage τ),
        (e'.update k position).run s = ((none, e'), s) := by
  refine ⟨Draft.entries_of_document read tree, ?_, ?_, ?_⟩
  · exact (records_make h id p entity).mono fun _ _ _ _ ends => ends.begins attaches
  · exact fun k other scope? emitter entry s => Bullet.binds_iff k other scope? emitter s
  · intro e noRoot e' goes
    obtain rfl := goes.eq_of_inactive noRoot
    exact ⟨rfl, congrArg Option.isSome noRoot, fun k => run_update_inactive noRoot k⟩

end Emitter

/-! ## A host that makes one entity -/

namespace Sample

/-- A document with three numbered actions, not in the order of their numbers. -/
def threeTops : String :=
  "<bulletml><action label='top2'/><action label='top1'/><action label='top7'/></bulletml>"

def supplier : Host Int Nat where
  create wanted
    | 0 => (none, 0)
    | n + 1 => (some (.resting n wanted.position (some wanted.emitter)), n)
  spawn _ n := n
  remove _ n := n
  target _ _ := ⟨0, 0⟩
  rank _ := 0
  random n := (0, n)

theorem attaches_supplier : supplier.Attaches := by
  rintro wanted (_ | n) made supplied <;> cases supplied
  rfl

end Sample

open scoped Sample in
open Sample in
/-- The second of the three entry points gets the only entity, and the third one is refused. -/
theorem Emitter.enters_everywhere_three : ∃ root d p, Draft.ofDocument root = (.ok (), d) ∧
    p.tree = d.tree ∧ supplier.Attaches ∧ p.entryPoints = [2, 1, 3] ∧
    Pattern.Entries root.HasAction p.entryPoints ∧
    ∃ calls, Begins 0 entity p ((make supplier 0 entity p).run ⟨1, {}⟩).1 calls ∧
      calls.filterMap (fun | .spawn b => some b.node | _ => none) = [1] := by
  cases result : (Load.pattern {} threeTops).run.run {} with
  | mk outcome j =>
    have loads : (((Load.pattern {} threeTops).run.run {}).1.toOption).isSome := by decide +kernel
    have found : ((((Load.pattern {} threeTops).run.run {}).1.toOption).all fun p =>
        p.entryPoints = [2, 1, 3] ∧
        ((make supplier.recorded 0 entity p).run
          ⟨⟨1, []⟩, {}⟩).2.world.calls.filterMap (fun | .spawn b => some b.node | _ => none) = [1])
        = true := by decide +kernel
    rw [result] at loads found
    cases outcome with
    | error e => cases loads
    | ok p =>
      simp only [Except.toOption, Option.all_some, decide_eq_true_eq] at found
      obtain ⟨entries, nodes⟩ := found
      obtain ⟨root, d, read, tree, -⟩ := Load.document_of_pattern result
      obtain ⟨called, records, -⟩ := enters_everywhere read tree attaches_supplier 0 entity
      obtain ⟨calls, ran, begins⟩ := records ⟨1, {}⟩ []
      have recorded := congrArg (fun r => r.2.world.calls) ran
      refine ⟨root, d, p, read, tree, attaches_supplier, entries, called, calls, begins, ?_⟩
      exact (congrArg (List.filterMap _) recorded).symm.trans nodes

end Barrage
