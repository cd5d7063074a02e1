import Barrage.Proofs.Simulation.Books
import Barrage.Proofs.Simulation.Chronicle

/-!
The books through a simulation. Each part of a tick keeps them: the emitter's bullet and the bullets
that are taken out deal with the host one after the other, and what was removed is gone when the
bullets are put back. Along all ticks, a chronicle says of every tick what it was like.
-/

set_option autoImplicit false

namespace Barrage

variable {F : Type}

/-! ## Computations on a world -/

/-- What holds of the result of a computation and of the world that it leaves. -/
def Yields {σ α : Type} (x : Staged σ α) (s : Stage σ) (after : α → σ → Prop) : Prop :=
  after (x.run s).1 (x.run s).2.world

/-- From worlds with a property a computation comes to results and worlds with another one. -/
def Ensures {σ α : Type} (before : σ → Prop) (x : Staged σ α) (after : α → σ → Prop) : Prop :=
  ∀ s, before s.world → Yields x s after

section Computations

variable {σ α β : Type} {x : Staged σ α} {s : Stage σ} {after : α → σ → Prop}

theorem Yields.pure {a : α} (holds : after a s.world) : Yields (pure a) s after := holds

theorem Yields.bind {f : α → Staged σ β} {after' : β → σ → Prop} (first : Yields x s after)
    (next : ∀ a t, after a t.world → Yields (f a) t after') : Yields (x >>= f) s after' :=
  next _ _ first

theorem Yields.get {f : Stage σ → Staged σ α} (next : Yields (f s) s after) :
    Yields (get >>= f) s after := next

theorem Ensures.bind {before : σ → Prop} {f : α → Staged σ β} {after' : β → σ → Prop}
    (first : Ensures before x after) (next : ∀ a, Ensures (after a) (f a) after') :
    Ensures before (x >>= f) after' := fun s holds => (first s holds).bind next

end Computations

variable [Scalar F]

namespace Arena

variable {p : Pattern} {root own : Nat} {log calls : Calls F}
  {moved waiting fired : List (Bullet F)} {a a' : Arena F} {b b' : Bullet F}

theorem ensures_listening {α : Type} {x : Staged (Arena F) α}
    {x' : Staged (Recorded F (Arena F)) α} {P : α → Calls F → Prop} {before : Arena F → Prop}
    {after : α × Calls F → Arena F → Prop}
    (records : Records Stage.noting x x' fun _ r _ calls => P r calls)
    (together : ∀ a, Together (Stage.Related (Followed a)) x x')
    (next : ∀ a r calls a', before a → P r calls → a.Follows calls a' → after (r, calls) a') :
    Ensures before (listening x') after := by
  intro s holds
  obtain ⟨calls, told, same, asked⟩ := records.run_listening s
  obtain ⟨-, ⟨-, follows⟩, -⟩ := together s.world s (s.noting []) ⟨⟨rfl, trivial, rfl⟩, rfl⟩
  rw [same] at follows
  unfold Yields
  rw [told]
  exact next _ _ _ _ holds asked follows

/-! ## Between dealings -/

structure Kept (p : Pattern) (root : Nat) (log : Calls F) (moved waiting : List (Bullet F))
    (a : Arena F) : Prop extends Booked p root (.of log) moved waiting a where
  settled : Settled p log

namespace Kept

theorem follows (kept : Kept p root log moved waiting a)
    (removable : Removable root (.of log) moved a own)
    (dealings : Dealings host p emitterId own calls) (follows : a.Follows calls a') :
    Kept p root (log ++ calls) moved waiting a' where
  toBooked := follows.booked kept.toBooked removable dealings
  settled := kept.settled.append (.of_dealings dealings follows.answers)

theorem nodup (kept : Kept p root log moved waiting a) :
    (ids (moved ++ waiting ++ a.bullets.toList)).Nodup :=
  kept.holds ▸ kept.once.filter _

theorem of_held (kept : Kept p root log moved waiting a) (id : Nat)
    (held : id ∈ ids (moved ++ waiting ++ a.bullets.toList)) :
    id ∈ ids (Ledger.of log).given ∧ (id ∈ a.removed ∨ id ∉ (Ledger.of log).gone) := by
  rw [kept.holds, List.mem_filter] at held
  exact ⟨held.1, of_decide_eq_true held.2⟩

theorem begin (kept : Kept p root log moved (b :: waiting) a) :
    Kept p root log (moved ++ [b]) waiting a :=
  { kept with
    pending := fun id removed inside => by
      rw [ids_append]
      exact List.mem_append_left _ (kept.pending id removed inside)
    holds := by
      rw [List.append_assoc moved, List.singleton_append]
      exact kept.holds
    alike := by
      rw [List.append_assoc moved, List.singleton_append]
      exact kept.alike }

theorem not_removed (kept : Kept p root log moved (b :: waiting) a) : b.entity.id ∉ a.removed := by
  -- else it would be the entity of a bullet that was moved, and of this one as well
  intro removed
  have inside := (kept.of_held b.entity.id (by simp [ids])).1
  have twice := kept.nodup
  rw [ids_append, ids_append, List.append_assoc, List.nodup_append] at twice
  exact twice.2.2 _ (kept.pending _ removed inside) _ (by simp [ids]) rfl

theorem removable (kept : Kept p root log (moved ++ [b]) waiting a) :
    Removable root (.of log) (moved ++ [b]) a b.entity.id := by
  obtain ⟨inside, here⟩ := kept.of_held b.entity.id (by simp [ids])
  exact ⟨List.mem_cons_of_mem _ (kept.given _ inside), fun gone => here.resolve_right (· gone),
    fun _ => by simp [ids]⟩

theorem later (kept : Kept p root log (moved ++ [b]) waiting a) (later : b.Later b') :
    Kept p root log (moved ++ [b']) waiting a := by
  have same : ids (moved ++ [b']) = ids (moved ++ [b]) := by simp [ids, later.id]
  exact { kept with
    pending := same ▸ kept.pending
    holds := by
      rw [← kept.holds, List.append_assoc, ids_append, same, ← ids_append, ← List.append_assoc]
    alike := by
      have known := kept.alike b (by simp)
      intro b'' inside
      simp only [List.mem_append, List.mem_singleton, or_assoc] at inside
      rcases inside with inside | rfl | inside
      · exact kept.alike b'' (by simp [inside])
      · rwa [later.pattern, later.emitter]
      · exact kept.alike b'' (by simp only [List.mem_append]; tauto) }

theorem ids_eq_living (kept : Kept p root log [] waiting a) :
    ids (waiting ++ a.bullets.toList) = (Ledger.of log).living := by
  rw [← List.nil_append waiting, kept.holds, Ledger.living]
  refine List.filter_congr fun id inside => ?_
  rw [decide_eq_decide]
  exact or_iff_right fun removed => List.not_mem_nil (kept.pending id removed inside)

/-! ## Parts of a tick -/

theorem takeOut (kept : Kept p root log [] [] a) :
    Kept p root log [] a.bullets.toList (Arena.takeOut a).2 :=
  { kept with
    holds := (congrArg ids (List.append_nil _)).trans kept.holds
    alike := fun b inside => kept.alike b (List.append_nil a.bullets.toList ▸ inside) }

theorem root_not_given (kept : Kept p root log moved waiting a) :
    root ∉ ids (Ledger.of log).given :=
  fun inside => (List.nodup_cons.1 kept.distinct).1 (kept.given _ inside)

omit [Scalar F] in
theorem putBack_bullets (moved : List (Bullet F)) (a : Arena F) :
    (Arena.putBack moved a).bullets.toList =
      (moved ++ a.bullets.toList).filter fun b => b.entity.id ∉ a.removed := by
  simp [Arena.putBack]

theorem putBack (kept : Kept p root log moved [] a) :
    Kept p root log [] [] (Arena.putBack moved a) := by
  have left : ∀ {id}, id ∈ (Arena.putBack moved a).removed ↔
      id ∈ a.removed ∧ some id = a.root? := by
    simp [Arena.putBack]
  have onlyRoot : ∀ {id}, id ∈ (Arena.putBack moved a).removed → id = root :=
    fun removed => kept.rootKnown _ (left.1 removed).2.symm
  exact { kept with
    noted := fun id removed => kept.noted id (left.1 removed).1
    notedOnce := kept.notedOnce.filter _
    pending := fun id removed inside =>
      absurd (onlyRoot removed ▸ inside) kept.root_not_given
    rootNoted := by
      intro held gone
      obtain ⟨id, same⟩ := Option.ne_none_iff_exists'.1 held
      obtain rfl := kept.rootKnown id same
      exact left.2 ⟨kept.rootNoted held gone, same.symm⟩
    holds := by
      have before := kept.holds
      rw [List.append_nil] at before
      have put : ids (Arena.putBack moved a).bullets.toList =
          (ids (moved ++ a.bullets.toList)).filter (· ∉ a.removed) := by
        rw [putBack_bullets, ids, ids, List.filter_map]
        rfl
      refine put.trans ?_
      rw [before, List.filter_filter]
      refine List.filter_congr fun id inside => ?_
      have outside : id ∉ (Arena.putBack moved a).removed :=
        fun removed => kept.root_not_given (onlyRoot removed ▸ inside)
      have noted := kept.noted id
      rw [← Bool.decide_and, decide_eq_decide]
      tauto
    alike := by
      intro b inside
      have member : b ∈ moved ++ a.bullets.toList := by
        have inside : b ∈ (Arena.putBack moved a).bullets.toList := inside
        rw [putBack_bullets] at inside
        exact List.mem_of_mem_filter inside
      exact kept.alike b (by rwa [List.append_nil]) }

theorem fired_stays (kept : Kept p root log moved [] a) (inside : b ∈ a.bullets.toList) :
    b ∈ (Arena.putBack moved a).bullets.toList := by
  have number : b.entity.id ∈ ids a.bullets.toList := List.mem_map_of_mem inside
  have twice := kept.nodup
  rw [List.append_nil, ids_append, List.nodup_append] at twice
  rw [putBack_bullets, List.mem_filter]
  refine ⟨List.mem_append_right _ inside, decide_eq_true fun removed => ?_⟩
  have given := (kept.of_held b.entity.id (by simp [number])).1
  exact twice.2.2 _ (kept.pending _ removed given) _ number rfl

theorem takeRootRemoval (kept : Kept p root log [] [] a) :
    Kept p root log [] [] (Arena.takeRootRemoval a).2 := by
  unfold Arena.takeRootRemoval
  split
  · exact kept
  · next id held =>
    obtain rfl := kept.rootKnown id held
    split
    · exact { kept with
        noted := fun id' removed => kept.noted id' (List.mem_of_mem_filter removed)
        notedOnce := kept.notedOnce.filter _
        pending := fun id' removed => kept.pending id' (List.mem_of_mem_filter removed)
        rootNoted := fun held => absurd rfl held
        rootKnown := nofun
        holds := by
          refine kept.holds.trans (List.filter_congr fun id' inside => ?_)
          have other : id' ≠ id := fun same => kept.root_not_given (same ▸ inside)
          simp [other] }
    · exact kept

theorem notePeak (kept : Kept p root log moved waiting a) :
    Kept p root log moved waiting (Arena.notePeak a) := { kept with }

end Kept

/-! ## Moving bullets -/

structure Moving (p : Pattern) (root : Nat) (log : Calls F) (moved waiting fired : List (Bullet F))
    (known? : Option Nat) (a : Arena F) : Prop extends Kept p root log moved waiting a where
  bullets : a.bullets.toList = fired
  known : a.root? = known?

variable {known? : Option Nat}

theorem ensures_moveOne (b : Bullet F) :
    Ensures (Moving p root log moved (b :: waiting) fired known?) (Telling.moveOne b)
      fun r a => ∃ calls, r.2 = [⟨b, calls⟩] ∧ Moving p root (log ++ calls) (moved ++ [r.1]) waiting
        (fired ++ (Ledger.of calls).given) known? a := by
  intro s before
  have alike := before.alike b (by simp)
  have update : Ensures (Moving p root log (moved ++ [b]) waiting fired known?)
      (listening (b.update host.recorded)) fun r a =>
        Moving p root (log ++ r.2) (moved ++ [r.1.2]) waiting
          (fired ++ (Ledger.of r.2).given) known? a := by
    refine ensures_listening (b.records_update host)
      (fun a => Bullet.together_update (deals_followed a) b) ?_
    rintro a r calls a' before ⟨later, dealings⟩ follows
    rw [alike.1, alike.2] at dealings
    exact ⟨(before.follows before.removable dealings follows).later later,
      before.bullets ▸ follows.bullets, follows.root?.trans before.known⟩
  -- no bullet is passed over, for none that waits was removed
  have here : ¬ s.world.removed.contains b.entity.id := by simpa using before.not_removed
  refine Yields.get ?_
  rw [if_neg here]
  refine (update s ⟨before.begin, before.bullets, before.known⟩).bind ?_
  rintro ⟨⟨status, b'⟩, calls⟩ t moving
  exact Yields.pure ⟨calls, rfl, moving⟩

theorem ensures_moveAll (bullets : List (Bullet F)) :
    Ensures (Moving p root log moved bullets fired known?) (Telling.moveAll bullets)
      fun r a => r.2.map Move.bullet = bullets ∧
        Moving p root (log ++ r.2.flatMap Move.calls) (moved ++ r.1) []
          (fired ++ (Ledger.of (r.2.flatMap Move.calls)).given) known? a := by
  induction bullets generalizing log moved fired with
  | nil =>
    intro s before
    refine Yields.pure ⟨rfl, ?_⟩
    rw [List.append_nil moved]
    change Moving p root (log ++ []) moved [] (fired ++ []) known? s.world
    rwa [List.append_nil, List.append_nil]
  | cons b bullets ih =>
    refine (ensures_moveOne b).bind fun ⟨b', move⟩ => ?_
    rintro s ⟨calls, rfl, moving⟩
    refine (ih s moving).bind ?_
    rintro ⟨bullets', moves⟩ t ⟨same, moving⟩
    refine Yields.pure ⟨congrArg (b :: ·) same, ?_⟩
    change Moving p root (log ++ (calls ++ moves.flatMap Move.calls)) (moved ++ b' :: bullets') []
      (fired ++ (Ledger.of (calls ++ moves.flatMap Move.calls)).given) known? t.world
    simpa using moving

structure Ticked (p : Pattern) (root : Nat) (log : Calls F) (bullets : List (Bullet F))
    (known? : Option Nat) (told : List (Bullet F) × List (Move F)) (a : Arena F) : Prop where
  held : told.1 = bullets
  moved : told.2.map Move.bullet = bullets
  kept : Kept p root (log ++ told.2.flatMap Move.calls) [] [] a
  stays : ∀ b ∈ (Ledger.of (told.2.flatMap Move.calls)).given, b ∈ a.bullets.toList
  pendingRoot : ∀ id ∈ a.removed, some id = a.root?
  known : a.root? = known?

theorem ensures_tick : Ensures (Moving p root log [] [] fired known?) Telling.tick
    fun r a => Ticked p root log fired known? r.2 a := by
  rintro s ⟨kept, rfl, rfl⟩
  obtain ⟨same, moving⟩ := ensures_moveAll s.world.bullets.toList
    { s with world := (takeOut s.world).2 } ⟨kept.takeOut, rfl, rfl⟩
  rw [List.nil_append] at moving
  exact ⟨rfl, same, moving.putBack, fun b inside => moving.fired_stays (moving.bullets ▸ inside),
    fun id removed => of_decide_eq_true (List.mem_filter.1 removed).2, moving.known⟩

/-! ## The emitter -/

/-- An emitter that is bound has a bullet of its own entity, the removal of which matters. -/
structure Rooted (p : Pattern) (root : Nat) (e : Emitter F) (a : Arena F) : Prop where
  id : ∀ b ∈ e.root?, b.entity.id = root
  alike : ∀ b ∈ e.root?, b.pattern = p ∧ b.emitter = emitterId
  held : e.root? ≠ none → a.root? = some root

structure Ready (p : Pattern) (root : Nat) (log : Calls F) (bullets : List (Bullet F))
    (e : Emitter F) (a : Arena F) : Prop where
  kept : Kept p root log [] [] a
  rooted : Rooted p root e a
  bullets : a.bullets.toList = bullets
  here : e.root? ≠ none → root ∉ (Ledger.of log).gone

structure Paused (p : Pattern) (root : Nat) (log : Calls F) (bullets : List (Bullet F))
    (e : Emitter F) (a : Arena F) : Prop where
  kept : Kept p root log [] [] a
  rooted : Rooted p root e a
  bullets : a.bullets.toList = bullets

theorem ensures_dropRemoved (e : Emitter F) :
    Ensures (Paused p root log fired e) (dropRemoved e) (Ready p root log fired) := by
  rintro s ⟨kept, rooted, held⟩
  have kept' := kept.takeRootRemoval
  change Ready p root log fired (if (takeRootRemoval s.world).1 then e.detach.2 else e)
    (takeRootRemoval s.world).2
  unfold takeRootRemoval at kept' ⊢
  split
  · next noRoot =>
    have unbound : e.root? = none := by
      by_contra bound
      rw [rooted.held bound] at noRoot
      cases noRoot
    exact ⟨kept, rooted, held, fun bound => absurd unbound bound⟩
  · next id known =>
    rw [known] at kept'
    obtain rfl := kept.rootKnown id known
    dsimp only at kept' ⊢
    split
    · next removed =>
      rw [if_pos removed] at kept'
      exact ⟨kept', ⟨nofun, nofun, fun bound => absurd rfl bound⟩, held,
        fun bound => absurd rfl bound⟩
    · next here =>
      refine ⟨kept, rooted, held, fun _ gone => here ?_⟩
      exact List.contains_iff_mem.2 (kept.rootNoted (by simp [known]) gone)

theorem ensures_update (origin : Vec F) (e : Emitter F) :
    Ensures (Ready p root log fired e) (listening (Emitter.update host.recorded origin e))
      fun r a => Paused p root (log ++ r.2) (fired ++ (Ledger.of r.2).given) r.1.2 a ∧
        (e.root? = none → r.2 = []) := by
  refine ensures_listening (e.records_update host origin)
    (fun a => Emitter.together_update (deals_followed a) origin e) ?_
  rintro a ⟨_, e'⟩ calls a' ⟨kept, rooted, held, here⟩ updated follows
  have bullets := held ▸ follows.bullets
  cases updated with
  | unbound noRoot =>
    have same : { a' with random := a.random } = a := follows.world
    rw [← same] at kept
    refine ⟨⟨?_, ⟨rooted.id, rooted.alike, fun bound => absurd noRoot bound⟩, bullets⟩,
      fun _ => rfl⟩
    rw [List.append_nil]
    exact { kept with }
  | @bound b b' _ root' later dealings =>
    obtain rfl := rooted.id b root'
    have alike := rooted.alike b root'
    have bound : e.root? ≠ none := by simp [root']
    rw [alike.1, alike.2] at dealings
    have removable : Removable b.entity.id (.of log) [] a b.entity.id :=
      ⟨List.mem_cons_self, fun gone => absurd gone (here bound),
        fun inside => absurd inside kept.root_not_given⟩
    refine ⟨⟨kept.follows removable dealings follows, ⟨?_, ?_, ?_⟩, bullets⟩,
      fun noRoot => absurd noRoot bound⟩
    · rintro _ ⟨⟩
      exact later.id
    · rintro _ ⟨⟩
      rwa [later.pattern, later.emitter]
    · exact fun _ => follows.root?.trans (rooted.held bound)

/-! ## Ticks -/

/-- A tick is told as it was, after some calls and with some bullets that were held. -/
structure Faithful (p : Pattern) (root : Nat) (log : Calls F) (bullets : List (Bullet F))
    (r : Round F) : Prop where
  emitter : ∀ m ∈ r.root?, m.id = root ∧ root ∉ (Ledger.of log).gone
  held : r.held = bullets ++ (Ledger.of r.rootCalls).given
  moved : r.moves.map Move.bullet = r.held
  living : ids r.held = (Ledger.of (log ++ r.rootCalls)).living
  kept : Kept p root (log ++ r.calls) [] [] r.after
  stays : ∀ b ∈ (Ledger.of r.moveCalls).given, b ∈ r.after.bullets.toList
  pendingRoot : ∀ id ∈ r.after.removed, some id = r.after.root?

theorem ensures_turn (origin : Vec F) (e : Emitter F) :
    Ensures (Paused p root log fired e) (Telling.turn origin e) fun r a =>
      Faithful p root log fired r.2 ∧
        Paused p root (log ++ r.2.calls) r.2.after.bullets.toList r.1 a := by
  refine (ensures_dropRemoved e).bind fun e s ready => ?_
  refine (ensures_update origin e s ready).bind ?_
  rintro ⟨⟨status, e'⟩, calls⟩ t ⟨paused, silent⟩
  refine (ensures_tick t ⟨paused.kept, paused.bullets, rfl⟩).bind ?_
  rintro ⟨⟨⟩, held, moves⟩ t' ticked
  dsimp only at paused silent ticked
  let told : Round F :=
    { root? := e.root?.map fun b => ⟨b, calls⟩, held, moves, after := notePeak t'.world }
  change Faithful p root log fired told ∧
    Paused p root (log ++ told.calls) told.after.bullets.toList e' (notePeak t'.world)
  have rootCalls : told.rootCalls = calls := by
    cases bound : e.root? with
    | none =>
      rw [silent bound]
      simp [told, Round.rootCalls, bound]
    | some b => simp [told, Round.rootCalls, bound]
  have kept : Kept p root (log ++ told.calls) [] [] told.after := by
    rw [Round.calls, rootCalls, ← List.append_assoc]
    exact ticked.kept.notePeak
  refine ⟨⟨?_, ?_, ticked.moved.trans ticked.held.symm, ?_, kept, ticked.stays,
    ticked.pendingRoot⟩, kept, ⟨paused.rooted.id, paused.rooted.alike, ?_⟩, rfl⟩
  · rintro m move
    obtain ⟨b, bound, rfl⟩ := Option.map_eq_some_iff.1 move
    exact ⟨ready.rooted.id b bound, ready.here (by simp [bound])⟩
  · rw [rootCalls]
    exact ticked.held
  · have living := paused.kept.ids_eq_living
    rw [List.nil_append, paused.bullets, ← ticked.held] at living
    rwa [rootCalls]
  · exact fun bound => ticked.known.trans (paused.rooted.held bound)

/-! ## Simulations -/

inductive Proceeds (p : Pattern) (root : Nat) : Calls F → List (Bullet F) → List (Round F) →
    Prop where
  | nil {log : Calls F} {bullets : List (Bullet F)} : Proceeds p root log bullets []
  | cons {log : Calls F} {bullets : List (Bullet F)} {r : Round F} {rounds : List (Round F)}
      (faithful : Faithful p root log bullets r)
      (further : Proceeds p root (log ++ r.calls) r.after.bullets.toList rounds) :
      Proceeds p root log bullets (r :: rounds)

def resting (bullets : List (Bullet F)) (rounds : List (Round F)) : List (Bullet F) :=
  rounds.getLast?.elim bullets fun r => r.after.bullets.toList

omit [Scalar F] in
theorem resting_cons (bullets : List (Bullet F)) (r : Round F) (rounds : List (Round F)) :
    resting bullets (r :: rounds) = resting r.after.bullets.toList rounds := by
  rw [resting, resting, List.getLast?_cons]
  cases rounds.getLast? <;> rfl

theorem Proceeds.split {bullets : List (Bullet F)} {before after : List (Round F)} {r : Round F}
    (proceeds : Proceeds p root log bullets (before ++ r :: after)) :
    Faithful p root (log ++ before.flatMap Round.calls) (resting bullets before) r := by
  induction before generalizing log bullets with
  | nil =>
    cases proceeds with
    | cons faithful _ => simpa [resting] using faithful
  | cons first before ih =>
    cases proceeds with
    | cons _ further => simpa [resting_cons] using ih further

theorem ensures_turns (origin : Vec F) (n : Nat) (e : Emitter F) :
    Ensures (Paused p root log fired e) (Telling.turns origin n e) fun r a =>
      r.2.length = n ∧ Proceeds p root log fired r.2 ∧
        ∃ bullets, Paused p root (log ++ r.2.flatMap Round.calls) bullets r.1 a := by
  induction n generalizing log fired e with
  | zero =>
    intro s paused
    refine Yields.pure ⟨rfl, .nil, fired, ?_⟩
    change Paused p root (log ++ []) fired e s.world
    rwa [List.append_nil]
  | succ n ih =>
    refine (ensures_turn origin e).bind fun ⟨e', told⟩ s ⟨faithful, paused⟩ => ?_
    refine (ih e' s paused).bind ?_
    rintro ⟨e'', rounds⟩ t ⟨length, further, bullets, paused⟩
    refine Yields.pure ⟨congrArg (· + 1) length, .cons faithful further, bullets, ?_⟩
    change Paused p root (log ++ (told.calls ++ rounds.flatMap Round.calls)) bullets e'' t.world
    rwa [← List.append_assoc]

theorem ensures_makeRoot (s : SimulationSettings F) (random : RandomSource F) (p : Pattern)
    (origin : Vec F) :
    Ensures (· = .ofSettings s random) (Stage.ask (makeRoot origin)) fun entity a =>
      Kept p entity.id [] [] [] a ∧ a.bullets.toList = [] ∧ a.root? = some entity.id := by
  rintro ⟨_, journal⟩ rfl
  refine ⟨⟨?_, .nil p⟩, rfl, rfl⟩
  exact {
    fresh := fun id known => Nat.le_of_eq (List.mem_singleton.1 known)
    distinct := List.nodup_singleton _
    once := .nil
    given := nofun
    gone := nofun
    noted := nofun
    notedOnce := .nil
    pending := nofun
    rootNoted := nofun
    rootKnown := fun id known => (Option.mem_some_iff.1 known).symm
    holds := rfl
    alike := nofun
    spawned := rfl
    counted := rfl
    named := rfl }

theorem ensures_make (p : Pattern) (entity : Entity F) :
    Ensures (fun a => Kept p entity.id [] [] [] a ∧ a.bullets.toList = [] ∧
        a.root? = some entity.id)
      (listening (Emitter.make host.recorded emitterId entity p)) fun r a =>
        ∀ e, r.1 = .ok e → Paused p entity.id r.2 (Ledger.of r.2).given e a := by
  refine ensures_listening (Emitter.records_make host emitterId p entity)
    (fun a => Emitter.together_make (deals_followed a) emitterId entity p) ?_
  rintro a outcome calls a' ⟨kept, empty, known⟩ made follows e ended
  obtain ⟨dealings, bound⟩ := made.dealings
  have removable : Removable entity.id (.of []) [] a entity.id := ⟨List.mem_cons_self, nofun, nofun⟩
  refine ⟨kept.follows removable dealings follows, ⟨?_, ?_, ?_⟩, ?_⟩
  · exact fun b root => (bound e ended b root).1
  · exact fun b root => (bound e ended b root).2
  · exact fun _ => follows.root?.trans known
  · rw [follows.bullets, empty, List.nil_append]

/-- A simulation is told as it was: how the emitter was made, all ticks, and what they came to. -/
structure Accounts (s : SimulationSettings F) (p : Pattern)
    (told : Except RunError Report × Chronicle F) (a : Arena F) : Prop where
  proceeds : Proceeds p told.2.root told.2.begins (Ledger.of told.2.begins).given told.2.rounds
  ended : ∀ r, told.1 = .ok r → told.2.rounds.length = s.ticks ∧
    Kept p told.2.root (told.2.calls told.2.rounds) [] [] a ∧ ∃ e, r = a.finish s.ticks e

theorem Accounts.split {s : SimulationSettings F} {told : Except RunError Report × Chronicle F}
    (accounts : Accounts s p told a) {before after : List (Round F)} {r : Round F}
    (split : told.2.rounds = before ++ r :: after) :
    Faithful p told.2.root (told.2.calls before)
      (resting (Ledger.of told.2.begins).given before) r := by
  have proceeds := accounts.proceeds
  rw [split] at proceeds
  exact proceeds.split

theorem ensures_run (s : SimulationSettings F) (random : RandomSource F) (p : Pattern) :
    Ensures (· = .ofSettings s random) (Telling.run s p) (Accounts s p) := by
  refine (ensures_makeRoot s random p _).bind fun entity => ?_
  refine (ensures_make p entity).bind fun ⟨outcome, begins⟩ => ?_
  cases outcome with
  | error e => exact fun t _ => Yields.pure ⟨.nil, nofun⟩
  | ok e =>
    intro t made
    refine (ensures_turns _ s.ticks e t (made e rfl)).bind ?_
    rintro ⟨e', rounds⟩ t' ⟨length, proceeds, bullets, paused⟩
    have ready := ensures_dropRemoved e' t' paused
    refine ⟨proceeds, ?_⟩
    rintro _ ⟨⟩
    exact ⟨length, ready.kept, _, rfl⟩

end Arena

end Barrage
