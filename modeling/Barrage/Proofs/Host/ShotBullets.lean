import Barrage.Proofs.Host.Ticks
import Barrage.Proofs.Pattern.ChosenBullet
import Barrage.Proofs.Task.Reads

/-!
Which bullets fires give off. A fire gives off the last bullet that is below it or named there,
while it is linked to the first one, and to one below it rather than to one that is named.
-/

set_option autoImplicit false

namespace Barrage

variable {F σ : Type}

def Tree.bulletAt? (t : Tree) (l : Links) (i : NodeId) : Option NodeId :=
  match t.kind? i with
  | some .bulletRef => l.target? i
  | some .bullet => some i
  | _ => none

def Tree.lastBullet? (t : Tree) (l : Links) (i : NodeId) : Option NodeId :=
  ((t.children i).filterMap (t.bulletAt? l)).getLast?

/-- A task comes from a fire or from a reference to it, the tasks below it hold the bullets that are
below the fire or named there, and its shots take their values from the fire and the last bullet. -/
structure Plan.Loaded (p : Pattern) (q : Plan F) : Prop where
  comes : p.tree.kind? q.node = some .fire ∨
    ∃ i, p.tree.kind? i = some .fireRef ∧ p.target? i = some q.node
  holders : q.children.map Plan.node =
    (p.tree.children q.node).filterMap (p.tree.bulletAt? p.links)
  rules : let bullet? := q.children.getLast?.map Plan.node
    q.work =
      .fire (p.tree.shotRule .direction q.node bullet?) (p.tree.shotRule .speed q.node bullet?)

theorem fires_of_simpleWork? {t : Tree} {i : NodeId} {work : Work}
    (simple : t.simpleWork? i = some work) : work.fires = false := by
  unfold Tree.simpleWork? at simple
  split at simple <;> cases simple <;> rfl

theorem Tree.lt_size_of_simpleWork? {t : Tree} {i : NodeId} {work : Work}
    (simple : t.simpleWork? i = some work) : i < t.size := by
  unfold Tree.simpleWork? at simple
  split at simple
  iterate 5 next kind => exact Tree.lt_size_of_kind? kind
  cases simple

def Work.isPlain : Work → Bool
  | .sequence | .again | .action _ => true
  | _ => false

/-- What plans for the nodes of a pattern are made of: tasks that only do those below them, tasks of
nodes that have none below them, and loaded fires. -/
inductive Plan.Made (p : Pattern) : Plan F → Prop where
  | around {node : NodeId} {args : List F} {work : Work} {children : List (Plan F)}
      (plain : work.isPlain) (each : ∀ c ∈ children, Made p c) :
      Made p (.mk node args work children)
  | simple {node : NodeId} {work : Work} (does : p.tree.simpleWork? node = some work) :
      Made p (.mk node [] work [])
  | fire {q : Plan F} (loaded : q.Loaded p) (each : ∀ c ∈ q.children, Made p c) : Made p q

def Pattern.Mentions (p : Pattern) (i : NodeId) : Prop :=
  i < p.tree.size ∨ ∃ r, p.target? r = some i

/-- Something holds of a task that plans are made of as soon as it holds of all tasks below it. -/
structure Plan.Forms (p : Pattern) (holds : Plan F → Prop) : Prop where
  around : ∀ {node : NodeId} {args : List F} {work : Work} {children : List (Plan F)},
    p.Mentions node → work.isPlain → (∀ c ∈ children, holds c) → holds (.mk node args work children)
  simple : ∀ {node : NodeId} {work : Work}, p.Mentions node →
    p.tree.simpleWork? node = some work → holds (.mk node [] work [])
  fire : ∀ {q : Plan F}, p.Mentions q.node → q.Loaded p → (∀ c ∈ q.children, holds c) → holds q

theorem Plan.Made.forms (p : Pattern) : Plan.Forms p (Plan.Made (F := F) p) where
  around _ := .around
  simple _ := .simple
  fire _ := .fire

/-- All fires that a plan holds are loaded with the bullets of a pattern. -/
def Plan.AllLoaded (p : Pattern) (plan : Plan F) : Prop :=
  ∀ outer frames q, plan.Holds outer frames q → q.work.fires → q.Loaded p

theorem Plan.Made.allLoaded {p : Pattern} {plan : Plan F} (made : plan.Made p) :
    plan.AllLoaded p := by
  intro outer frames q holds fires
  induction made generalizing outer with
  | @around _ _ work _ plain _ ih =>
    cases holds with
    | self => cases work <;> cases plain <;> cases fires
    | child inside deeper => exact ih _ inside _ deeper
  | simple does =>
    cases holds with
    | self =>
      have quiet := fires_of_simpleWork? does
      rw [Plan.work, quiet] at fires
      cases fires
    | child inside => cases inside
  | fire loaded _ ih =>
    cases holds with
    | self => exact loaded
    | child inside deeper => exact ih _ inside _ deeper

theorem Plan.Made.reads {p : Pattern} {good : Expression → Prop}
    (all : ∀ i, good (p.tree.expression i)) {plan : Plan F} (made : plan.Made p) :
    plan.Reads good := by
  induction made with
  | @around _ _ work _ plain _ ih =>
    refine .mk ?_ ih
    cases work <;> trivial
  | simple does => exact .mk (Tree.reads_of_simpleWork? all does) (List.forall_mem_nil _)
  | @fire q loaded _ ih =>
    obtain ⟨node, args, work, children⟩ := q
    refine .mk ?_ ih
    rw [show work = _ from loaded.rules]
    exact ⟨Tree.reads_shotRule all _ _ _, Tree.reads_shotRule all _ _ _⟩

/-! ## Making plans -/

namespace Assembly

variable [Scalar F] {p : Pattern} {h : Host F σ} {outer : Frames F} {i : NodeId} {a a' : Assembly σ}

theorem nodes_of_bulletHolder {holders : List (Plan F)}
    (ended : Ends (bulletHolder p h outer i) a holders a') :
    holders.map Plan.node = (p.tree.bulletAt? p.links i).toList ∧
      ∀ q ∈ holders, q.work = .sequence ∧ q.children = [] := by
  unfold bulletHolder at ended
  split at ended
  · next kind =>
    split at ended
    · exact absurd ended Ends.not_throw
    · next target linked =>
      obtain ⟨args, _, -, ended⟩ := Ends.bind_iff.1 ended
      obtain ⟨_, _, -, ended⟩ := Ends.bind_iff.1 ended
      obtain ⟨rfl, -⟩ := Ends.pure_iff.1 ended
      have named : p.tree.bulletAt? p.links i = some target := by
        rw [Tree.bulletAt?, kind]
        exact linked
      rw [named]
      exact ⟨rfl, by simp [Plan.work, Plan.children]⟩
  · next kind =>
    obtain ⟨_, _, -, ended⟩ := Ends.bind_iff.1 ended
    obtain ⟨rfl, -⟩ := Ends.pure_iff.1 ended
    have inside : p.tree.bulletAt? p.links i = some i := by rw [Tree.bulletAt?, kind]
    rw [inside]
    exact ⟨rfl, by simp [Plan.work, Plan.children]⟩
  · next noReference noBullet =>
    obtain ⟨rfl, -⟩ := Ends.pure_iff.1 ended
    have neither : p.tree.bulletAt? p.links i = none := by
      unfold Tree.bulletAt?
      split
      · next kind => exact absurd kind noReference
      · next kind => exact absurd kind noBullet
      · rfl
    rw [neither]
    exact ⟨rfl, List.forall_mem_nil _⟩

omit [Scalar F] in
theorem nodes_of_holders {cs : List NodeId} {holders : List (List (Plan F))}
    (all : List.Forall₂ (fun c (qs : List (Plan F)) =>
      qs.map Plan.node = (p.tree.bulletAt? p.links c).toList) cs holders) :
    holders.flatten.map Plan.node = cs.filterMap (p.tree.bulletAt? p.links) := by
  induction all with
  | nil => rfl
  | @cons c qs cs holders first _ ih =>
    rw [List.flatten_cons, List.map_append, first, ih, List.filterMap_cons]
    cases p.tree.bulletAt? p.links c <;> rfl

omit [Scalar F] in
theorem mentions_of_bulletAt? {b : NodeId} (found : p.tree.bulletAt? p.links i = some b) :
    p.Mentions b := by
  unfold Tree.bulletAt? at found
  split at found
  · exact .inr ⟨i, found⟩
  · next kind =>
    cases found
    exact .inl (Tree.lt_size_of_kind? kind)
  · cases found

section Forms

variable {holds : Plan F → Prop} (forms : Plan.Forms p holds)

include forms

/-- The task of a fire holds the bullets that are below the fire or named there. -/
theorem holds_of_fire {args : List F} {q : Plan F}
    (comes : p.tree.kind? i = some .fire ∨
      ∃ k, p.tree.kind? k = some .fireRef ∧ p.target? k = some i)
    (ended : Ends (fire p h outer args i) a q a') : holds q := by
  unfold fire at ended
  obtain ⟨_, _, -, ended⟩ := Ends.bind_iff.1 ended
  obtain ⟨holders, _, held, ended⟩ := Ends.bind_iff.1 ended
  obtain ⟨rfl, -⟩ := Ends.pure_iff.1 ended
  have each := Ends.forall₂_mapM held fun c _ t qs t' ended => nodes_of_bulletHolder ended
  have mentioned : p.Mentions i := by
    rcases comes with kind | ⟨k, -, linked⟩
    · exact .inl (Tree.lt_size_of_kind? kind)
    · exact .inr ⟨k, linked⟩
  refine forms.fire mentioned ⟨comes, nodes_of_holders (each.imp fun _ _ known => known.1), rfl⟩ ?_
  -- the tasks below a fire only hold arguments
  rintro ⟨node, args, work, children⟩ inside
  obtain ⟨qs, member, inside⟩ := List.mem_flatten.1 inside
  obtain ⟨c, -, nodes, simple⟩ := exists_of_mem_forall₂ each member
  obtain ⟨rfl, rfl⟩ : work = .sequence ∧ children = [] := simple _ inside
  have named : node ∈ (p.tree.bulletAt? p.links c).toList := nodes ▸ List.mem_map_of_mem inside
  exact forms.around (mentions_of_bulletAt? (Option.mem_toList.1 named)) rfl (List.forall_mem_nil _)

omit [Scalar F] forms in
theorem holds_of_mapM {α : Type} {cs : List α} {f : α → Assembling σ (List (Plan F))}
    {below : List (List (Plan F))} (ended : Ends (cs.mapM f) a below a')
    (each : ∀ c ∈ cs, ∀ a qs a', Ends (f c) a qs a' → ∀ q ∈ qs, holds q) :
    ∀ q ∈ below.flatten, holds q := by
  have all := Ends.forall₂_mapM ended each
  intro q inside
  obtain ⟨qs, member, inside⟩ := List.mem_flatten.1 inside
  obtain ⟨_, -, made⟩ := exists_of_mem_forall₂ all member
  exact made q inside

theorem holds_of_node {depth : Nat} {qs : List (Plan F)}
    (ended : Ends (node p h depth outer i) a qs a') : ∀ q ∈ qs, holds q := by
  induction depth, i using node_induction p generalizing outer qs a a' with
  | step depth i below beyond =>
    rw [node] at ended
    split at ended
    -- a repeat
    · next kind =>
      obtain ⟨_, _, -, ended⟩ := Ends.bind_iff.1 ended
      obtain ⟨children, _, made, ended⟩ := Ends.bind_iff.1 ended
      obtain ⟨rfl, -⟩ := Ends.pure_iff.1 ended
      rintro _ (_ | ⟨_, ⟨⟩⟩)
      exact forms.around (.inl (Tree.lt_size_of_kind? kind)) rfl
        (holds_of_mapM made fun c _ _ _ _ ended => below c.1 c.2 ended)
    -- an action
    · next kind =>
      obtain ⟨bound, _, -, ended⟩ := Ends.bind_iff.1 ended
      obtain ⟨_, _, -, ended⟩ := Ends.bind_iff.1 ended
      obtain ⟨children, _, made, ended⟩ := Ends.bind_iff.1 ended
      obtain ⟨rfl, -⟩ := Ends.pure_iff.1 ended
      rintro _ (_ | ⟨_, ⟨⟩⟩)
      exact forms.around (.inl (Tree.lt_size_of_kind? kind)) rfl
        (holds_of_mapM made fun c _ _ _ _ ended => below c.1 c.2 ended)
    -- an action reference, with the action that it names below it
    · next kind =>
      split at ended
      · next shallow =>
        split at ended
        · exact absurd ended Ends.not_throw
        · next target linked =>
          obtain ⟨bound, _, -, ended⟩ := Ends.bind_iff.1 ended
          obtain ⟨args, _, -, ended⟩ := Ends.bind_iff.1 ended
          obtain ⟨_, _, -, ended⟩ := Ends.bind_iff.1 ended
          obtain ⟨inner, _, -, ended⟩ := Ends.bind_iff.1 ended
          obtain ⟨_, _, -, ended⟩ := Ends.bind_iff.1 ended
          obtain ⟨children, _, made, ended⟩ := Ends.bind_iff.1 ended
          obtain ⟨rfl, -⟩ := Ends.pure_iff.1 ended
          have named : holds (.mk target [] (.action inner) children.flatten) :=
            forms.around (.inr ⟨i, linked⟩) rfl
              (holds_of_mapM made fun c _ _ _ _ ended => beyond shallow c.1 ended)
          rintro _ (_ | ⟨_, ⟨⟩⟩)
          refine forms.around (.inl (Tree.lt_size_of_kind? kind)) rfl ?_
          rintro _ (_ | ⟨_, ⟨⟩⟩)
          exact named
      · exact absurd ended Ends.not_throw
    -- a fire, and a reference to one
    · next kind =>
      obtain ⟨made, _, fired, ended⟩ := Ends.bind_iff.1 ended
      obtain ⟨rfl, -⟩ := Ends.pure_iff.1 ended
      rintro _ (_ | ⟨_, ⟨⟩⟩)
      exact holds_of_fire forms (.inl kind) fired
    · next kind =>
      split at ended
      · split at ended
        · exact absurd ended Ends.not_throw
        · next target linked =>
          obtain ⟨args, _, -, ended⟩ := Ends.bind_iff.1 ended
          obtain ⟨made, _, fired, ended⟩ := Ends.bind_iff.1 ended
          obtain ⟨rfl, -⟩ := Ends.pure_iff.1 ended
          rintro _ (_ | ⟨_, ⟨⟩⟩)
          exact holds_of_fire forms (.inr ⟨i, kind, linked⟩) fired
      · exact absurd ended Ends.not_throw
    -- a task without others below it
    · split at ended
      · next work simple =>
        obtain ⟨_, _, -, ended⟩ := Ends.bind_iff.1 ended
        obtain ⟨rfl, -⟩ := Ends.pure_iff.1 ended
        rintro _ (_ | ⟨_, ⟨⟩⟩)
        exact forms.simple (.inl (Tree.lt_size_of_simpleWork? simple)) simple
      · obtain ⟨rfl, -⟩ := Ends.pure_iff.1 ended
        exact List.forall_mem_nil _

end Forms

end Assembly

theorem Plan.holds_of_build [Scalar F] {p : Pattern} {h : Host F σ} {scope : Frames F} {i : NodeId}
    {s s' : Stage σ} {plan : Plan F} {holds : Plan F → Prop} (forms : Plan.Forms p holds)
    (built : (Plan.build h p scope i).run s = (.ok plan, s')) :
    ∃ below, plan = .mk i [] .sequence below ∧ ∀ q ∈ below, holds q := by
  have ended : Ends (Assembly.root p h scope i) { toStage := s } plan
      ((Assembly.root p h scope i).run.run { toStage := s }).2 :=
    Prod.ext (congrArg Prod.fst built :) rfl
  rw [Assembly.root] at ended
  obtain ⟨_, _, -, ended⟩ := Ends.bind_iff.1 ended
  obtain ⟨below, _, made, ended⟩ := Ends.bind_iff.1 ended
  obtain ⟨rfl, -⟩ := Ends.pure_iff.1 ended
  exact ⟨below.flatten, rfl,
    Assembly.holds_of_mapM made fun _ _ _ _ _ => Assembly.holds_of_node forms⟩

theorem Plan.made_of_build [Scalar F] {p : Pattern} {h : Host F σ} {scope : Frames F} {i : NodeId}
    {s s' : Stage σ} {plan : Plan F} (built : (Plan.build h p scope i).run s = (.ok plan, s')) :
    plan.Made p := by
  obtain ⟨below, rfl, made⟩ := Plan.holds_of_build (Plan.Made.forms p) built
  exact .around rfl made

theorem Plan.loaded_of_build [Scalar F] {p : Pattern} {h : Host F σ} {scope : Frames F} {i : NodeId}
    {s s' : Stage σ} {plan : Plan F} (built : (Plan.build h p scope i).run s = (.ok plan, s')) :
    plan.AllLoaded p :=
  (Plan.made_of_build built).allLoaded

/-! ## Shots -/

theorem Plan.Holds.frames_eq {outer frames : Frames F} {p q : Plan F}
    (holds : p.Holds outer frames q) : ∃ around, frames = q.args :: around := by
  induction holds with
  | self => exact ⟨_, rfl⟩
  | child _ _ ih => exact ih

section Shots

variable {p : Pattern} {q : Plan F}

theorem Plan.Loaded.lastBullet? (loaded : q.Loaded p) :
    p.tree.lastBullet? p.links q.node = q.children.getLast?.map Plan.node := by
  rw [Tree.lastBullet?, ← loaded.holders, List.getLast?_map]

theorem Shot.lastBullet? [Scalar F] {env : Env F σ} {frames : Frames F} {b : Bullet F}
    (shot : Shot env frames q b) (loaded : q.Loaded p) :
    p.tree.lastBullet? p.links q.node = some b.node := by
  obtain ⟨holder, held, node, -⟩ := shot.held
  rw [loaded.lastBullet?, held, node]
  rfl

end Shots

namespace Load

variable [Scalar F] {s : LoaderSettings} {j j' : Journal} {source : String} {p : Pattern}

omit [Scalar F] in
theorem kind?_of_loaded (loads : Ends (pattern s source) j p j') {q : Plan F}
    (loaded : q.Loaded p) : p.tree.kind? q.node = some .fire := by
  rcases loaded.comes with fire | ⟨i, reference, linked⟩
  · exact fire
  · obtain ⟨n, atNode, kind⟩ := Option.map_eq_some_iff.1 reference
    obtain ⟨n', m, named, label, atNode', atTarget, refers, same, -⟩ :=
      names_of_pattern loads linked (Tree.lt_size_of_node? atNode)
    obtain rfl := Option.some.inj (atNode.symm.trans atNode')
    rw [kind] at refers
    obtain rfl := Option.some.inj refers
    simp [Tree.kind?, atTarget, same]

/-- Every shot in a bullet of a loaded pattern is one of a fire, and gives off the last bullet that
the fire holds. That is the bullet that the fire is linked to exactly if the fire is not inside a
fire reference and the bullet that is found for it is the last one. -/
theorem shots_of_pattern (loads : Ends (pattern s source) j p j') {b b' : Bullet F}
    {trace : Trace F} (bound : b.Bound) (ofPattern : b.pattern = p) (goes : b.Goes trace b') :
    (∀ (σ : Type) (h : Host F σ), Records Stage.noting (b'.step h) (b'.step h.recorded)
      fun _ _ _ calls => ∀ fired, .spawn fired ∈ calls → fired.Bound ∧ fired.pattern = p ∧
        ∃ around q, b'.plan.Holds b'.scope (q.args :: around) q ∧ q.work.fires ∧
          p.tree.lastBullet? p.links q.node = some fired.node) ∧
    ∀ around q, b'.plan.Holds b'.scope (q.args :: around) q → q.work.fires →
      p.tree.kind? q.node = some .fire ∧
      ∀ cell (σ : Type) (h : Host F σ), Records Actor.noting ((b'.env h).run around q cell)
        ((b'.env h).recorded.run around q cell) fun _ _ _ calls =>
          ∀ fired, .spawn fired ∈ calls →
            p.tree.lastBullet? p.links q.node = some fired.node ∧
            (p.bullet? q.node = some fired.node ↔
              p.tree.findParent? .fireRef q.node = none ∧
              p.tree.bulletFor? p.links q.node = p.tree.lastBullet? p.links q.node) := by
  obtain ⟨⟨_, _, _, _, built⟩, -⟩ := bound.built_and_fresh
  obtain ⟨cell, entity, rfl⟩ := goes.eq_with
  subst ofPattern
  have loaded : ∀ {frames q}, b.plan.Holds b.scope frames q → q.work.fires → q.Loaded b.pattern :=
    Plan.loaded_of_build built _ _ _
  refine ⟨fun σ h => (Bullet.records_step h _).mono ?_, fun around q holds fires => ?_⟩
  · rintro _ _ _ _ ⟨-, -, -, -, parts⟩ fired spawned
    obtain ⟨frames, q, holds, fires, -, shot⟩ := exists_shot_of_spawn parts spawned
    obtain ⟨around, rfl⟩ := holds.frames_eq
    exact ⟨shot.bound, shot.pattern, around, q, holds, fires,
      shot.lastBullet? (loaded holds fires)⟩
  · have isFire := kind?_of_loaded loads (loaded holds fires)
    refine ⟨isFire, fun cell σ h => ?_⟩
    have other : ∀ work : Work, work.fires = false → q.work ≠ work := by
      rintro _ quiet rfl
      simp [quiet] at fires
    refine Records.mono ((Bullet.env h b).asks_run_simple around cell (other _ rfl) (other _ rfl)
      fun _ => other _ rfl) ?_
    rintro _ _ _ _ ⟨-, rfl | deal⟩ fired spawned
    · cases spawned
    · obtain ⟨-, -, shot⟩ := deal.shot spawned
      have last := shot.lastBullet? (loaded holds fires)
      refine ⟨last, ?_⟩
      rw [bullet?_of_pattern loads isFire, last]
      split <;> simp [*]

def twins : String :=
  "<bulletml><action label='top'><fire><bullet label='a'/><bullet label='b'/></fire></action>"
    ++ "</bulletml>"

def twinsFire (t : Tree) : Plan Int :=
  .mk 2 [] (.fire (t.shotRule .direction 2 (some 4)) (t.shotRule .speed 2 (some 4)))
    [.mk 3 [] .sequence [], .mk 4 [] .sequence []]

open scoped Sample in
theorem build_twins {p : Pattern} (below : p.tree.children 1 = [2])
    (fire : p.tree.kind? 2 = some .fire) (inside : p.tree.children 2 = [3, 4])
    (first : p.tree.kind? 3 = some .bullet) (second : p.tree.kind? 4 = some .bullet) :
    (Plan.build Sample.host p [] 1).run Sample.stage =
      (.ok (.mk 1 [] .sequence [twinsFire p.tree]), Sample.stage) := by
  -- the recursion over nodes does not compute by itself
  have node : ∀ outer, Assembly.node p Sample.host 0 outer 2 = (do
      let made ← Assembly.fire p Sample.host outer [] 2
      pure [made]) := by
    intro outer
    rw [Assembly.node]
    simp only [fire]
  have holder : ∀ outer i, p.tree.kind? i = some .bullet →
      Assembly.bulletHolder p Sample.host outer i = (do
        Assembly.claim
        pure [.mk i [] .sequence []]) := by
    intro outer i kind
    simp only [Assembly.bulletHolder, kind]
  simp only [Plan.build, Assembly.root, below, inside, List.mapM_cons, List.mapM_nil, node,
    Assembly.fire, holder _ 3 first, holder _ 4 second]
  rfl

open scoped Sample in
/-- A shot of that fire gives off the second bullet, and the fire is linked to the first one. -/
theorem shots_of_pattern_twins : ∃ (p : Pattern) (j' : Journal) (b : Bullet Int),
    Ends (pattern {} twins) {} p j' ∧ b.Bound ∧ b.pattern = p ∧
    b.plan.Holds b.scope [[], []] (twinsFire p.tree) ∧ p.bullet? 2 = some 3 ∧
    ∀ cell, Records Actor.noting ((b.env Sample.host).run [[]] (twinsFire p.tree) cell)
      ((b.env Sample.host).recorded.run [[]] (twinsFire p.tree) cell) fun _ _ _ calls =>
        ∀ fired, .spawn fired ∈ calls → fired.node = 4 := by
  cases result : (pattern {} twins).run.run {} with
  | mk outcome j' =>
    have loads : (((pattern {} twins).run.run {}).1.toOption).isSome := by decide +kernel
    have found : ((((pattern {} twins).run.run {}).1.toOption).all fun p =>
        p.tree.children 1 = [2] ∧ p.tree.kind? 2 = some .fire ∧ p.tree.children 2 = [3, 4] ∧
        p.tree.kind? 3 = some .bullet ∧ p.tree.kind? 4 = some .bullet ∧
        p.bullet? 2 = some 3 ∧ p.tree.lastBullet? p.links 2 = some 4) = true := by decide +kernel
    rw [result] at loads found
    cases outcome with
    | error e => cases loads
    | ok p =>
      simp only [Except.toOption, Option.all_some, decide_eq_true_eq] at found
      obtain ⟨below, fire, inside, first, second, bullet, last⟩ := found
      obtain ⟨b, bound, ofPattern, plan, unfired⟩ := Bullet.exists_bound Sample.entity none 0
        (build_twins below fire inside first second)
      have scope : b.scope = [] := by rw [Bullet.scope, unfired]; rfl
      have holds : b.plan.Holds b.scope [[], []] (twinsFire p.tree) := by
        rw [plan, scope]
        exact .child List.mem_cons_self .self
      refine ⟨p, j', b, result, bound, ofPattern, holds, bullet, fun cell => ?_⟩
      have shots := (shots_of_pattern result bound ofPattern (.refl b)).2 [[]]
        (twinsFire p.tree) holds rfl
      refine (shots.2 cell Unit Sample.host).mono fun _ _ _ _ known fired spawned => ?_
      exact (Option.some.inj (last.symm.trans (known fired spawned).1)).symm

end Load

end Barrage
