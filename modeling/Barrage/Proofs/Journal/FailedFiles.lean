import Barrage.Proofs.Journal.PathOrder
import Mathlib.Data.Finset.Card
import Mathlib.Data.List.DropRight
import Mathlib.Tactic.TFAE

/-!
Which files a collector counts as failed. Whatever is recorded and in whatever order, a collector
holds the first events of every file, up to its limit, and a file counts as failed exactly if an
error is among these. An error that comes behind as many other events is lost, and if there is no
other error, so is the file's failure.
-/

set_option autoImplicit false

namespace Barrage

namespace Collector

inductive Entry where
  | record (path : Path) (event : Event)
  | enter (file : FileContext)
  | clear

namespace Entry

def apply (c : Collector) : Entry → Collector
  | record p e => c.record p e
  | enter file => c.enter file
  | clear => {}

def isClear : Entry → Bool
  | clear => true
  | _ => false

def path? : Entry → Option Path
  | record p _ => some p
  | enter file => some file.path
  | clear => none

def event? (p : Path) : Entry → Option Event
  | record q e => if q.same p then some e else none
  | _ => none

end Entry

def after (history : List Entry) : Collector := history.foldl Entry.apply {}

def sinceClear (history : List Entry) : List Entry := history.rtakeWhile fun x => !x.isClear

def filesOf (entries : List Entry) : List Path := entries.filterMap Entry.path?

def recorded (p : Path) (entries : List Entry) : List Event := entries.filterMap (Entry.event? p)

def errs (entries : List Entry) (p : Path) : Bool := (recorded p entries).any Event.isError

def errsEarly (entries : List Entry) (p : Path) : Bool :=
  ((recorded p entries).take eventLimit).any Event.isError

/-- The number of different paths in a list; spellings of one path count once. -/
def distinct (ps : List Path) : Nat := (ps.map Path.components).toFinset.card

variable {c : Collector} {entries : List Entry} {p q : Path}

theorem recorded_congr (same : p.components = q.components) (entries : List Entry) :
    recorded p entries = recorded q entries := by
  refine List.filterMap_congr fun x _ => ?_
  cases x <;> simp [Entry.event?, Path.same, same]

theorem errs_of_errsEarly (early : errsEarly entries p) : errs entries p := by
  obtain ⟨e, inside, isError⟩ := List.any_eq_true.1 early
  exact List.any_eq_true.2 ⟨e, List.mem_of_mem_take inside, isError⟩

/-! ## What is kept of the events of one file -/

def bounded (es : List Event) : List Event :=
  if es.length ≤ eventLimit then es else es.take eventLimit ++ [overflowNotice]

theorem push_bounded (es : List Event) (e : Event) :
    push (bounded es).toArray e = (bounded (es ++ [e])).toArray := by
  rw [bounded, bounded, List.length_append, List.length_singleton]
  rcases Nat.lt_trichotomy es.length eventLimit with below | full | beyond
  · rw [if_pos below.le, if_pos (Nat.succ_le_of_lt below), push, if_pos (by simpa using below)]
    exact List.push_toArray es e
  · rw [if_pos full.le, if_neg (by omega), push, if_neg (by simp [full]), if_pos (by simp [full]),
      List.take_append_of_le_length full.ge, ← full, List.take_length, List.push_toArray]
  · have size : (es.take eventLimit ++ [overflowNotice]).length = eventLimit + 1 := by
      rw [List.length_append, List.length_take_of_le beyond.le, List.length_singleton]
    rw [if_neg (by omega), if_neg (by omega), push, if_neg (by simp [size]),
      if_neg (by simp [size]), List.take_append_of_le_length beyond.le]

theorem any_isError_bounded (es : List Event) :
    (bounded es).any Event.isError = (es.take eventLimit).any Event.isError := by
  unfold bounded
  split
  · next short => rw [List.take_of_length_le short]
  · rw [List.any_append]
    exact Bool.or_false _

/-! ## Histories -/

/-- A collector holds what entries leave of each file's events, and the files that they are
about. -/
structure Holds (c : Collector) (entries : List Entry) : Prop where
  sortedEvents : c.events.Sorted
  sortedFiles : c.files.Sorted
  kept : ∀ p, (c.events.find? p).getD #[] = (bounded (recorded p entries)).toArray
  places : ∀ place, place ∈ c.events.paths.map Path.order ∨ place ∈ c.files.paths.map Path.order ↔
    place ∈ (filesOf entries).map Path.order

namespace Holds

theorem empty : Holds {} [] where
  sortedEvents := .nil
  sortedFiles := .nil
  kept _ := by simp [ByPath.find?, recorded, bounded]
  places _ := by simp [ByPath.paths, filesOf]

theorem record (holds : Holds c entries) (p : Path) (e : Event) :
    Holds (c.record p e) (entries ++ [.record p e]) where
  sortedEvents := holds.sortedEvents.alter
  sortedFiles := holds.sortedFiles
  kept q := by
    have found := holds.kept q
    rw [Collector.record, ByPath.find?_alter holds.sortedEvents, recorded, List.filterMap_append,
      ← recorded]
    by_cases same : p.order = q.order
    · have here : ([.record p e] : List Entry).filterMap (Entry.event? q) = [e] := by
        simp [Entry.event?, Path.same_iff_order.2 same]
      have components : p.components = q.components :=
        Path.same_iff.1 (Path.same_iff_order.2 same)
      rw [if_pos same, here, Option.getD_some, holds.kept p, recorded_congr components,
        push_bounded]
    · have elsewhere : ([.record p e] : List Entry).filterMap (Entry.event? q) = [] := by
        simp [Entry.event?, mt Path.same_iff_order.1 same]
      rw [if_neg same, elsewhere, List.append_nil, found]
  places place := by
    rw [Collector.record, ByPath.mem_orders_alter, filesOf, List.filterMap_append, ← filesOf,
      List.map_append, List.mem_append, ← holds.places]
    simp only [List.filterMap_cons, List.filterMap_nil, Entry.path?, List.map_cons, List.map_nil,
      List.mem_singleton]
    tauto

theorem enter (holds : Holds c entries) (file : FileContext) :
    Holds (c.enter file) (entries ++ [.enter file]) where
  sortedEvents := holds.sortedEvents
  sortedFiles := holds.sortedFiles.alter
  kept q := by
    rw [recorded, List.filterMap_append, ← recorded]
    exact (holds.kept q).trans (by simp [List.filterMap_cons, Entry.event?])
  places place := by
    rw [Collector.enter, ByPath.mem_orders_alter, filesOf, List.filterMap_append, ← filesOf,
      List.map_append, List.mem_append, ← holds.places]
    simp only [List.filterMap_cons, List.filterMap_nil, Entry.path?, List.map_cons, List.map_nil,
      List.mem_singleton]
    tauto

theorem after (history : List Entry) : Holds (after history) (sinceClear history) := by
  induction history using List.reverseRecOn with
  | nil => exact .empty
  | append_singleton history x ih =>
    have step : Collector.after (history ++ [x]) = x.apply (Collector.after history) := by
      simp [Collector.after]
    rw [step, sinceClear, List.rtakeWhile_concat, ← sinceClear]
    cases x with
    | record p e => exact ih.record p e
    | enter file => exact ih.enter file
    | clear => exact .empty

/-! ## Failed files -/

theorem hasErrors_eq (holds : Holds c entries) (p : Path) :
    c.hasErrors p = errsEarly entries p := by
  have kept : c.eventsOf p = bounded (recorded p entries) := by rw [eventsOf, holds.kept]
  rw [errsEarly, ← any_isError_bounded, hasErrors, errorsOf, kept, Bool.eq_iff_iff]
  simp [List.filter_eq_nil_iff]

end Holds

theorem sorted_enterAll (ps : List Path) {m : ByPath Unit} (sorted : m.Sorted) :
    (ps.foldl (fun m p => ByPath.alter p (fun _ => ()) m) m).Sorted ∧
    ∀ place, place ∈ (ps.foldl (fun m p => ByPath.alter p (fun _ => ()) m) m).paths.map Path.order ↔
      place ∈ m.paths.map Path.order ∨ place ∈ ps.map Path.order := by
  induction ps generalizing m with
  | nil => exact ⟨sorted, fun place => by simp⟩
  | cons p ps ih =>
    obtain ⟨sorted', places⟩ := ih (m := m.alter p fun _ => ()) sorted.alter
    refine ⟨sorted', fun place => (places place).trans ?_⟩
    rw [ByPath.mem_orders_alter, List.map_cons, List.mem_cons]
    tauto

/-- The files that a collector has seen are those of the entries, each one once. -/
theorem Holds.seen (holds : Holds c entries) :
    (c.seen.map Path.components).Nodup ∧
      ∀ cs, cs ∈ c.seen.map Path.components ↔ cs ∈ (filesOf entries).map Path.components := by
  have start : ByPath.paths (c.events.map fun x => (x.1, ())) = c.events.paths := by
    rw [ByPath.paths, ByPath.paths, List.map_map]
    rfl
  have sorted : ByPath.Sorted (c.events.map fun x => (x.1, ())) := by
    rw [ByPath.Sorted, start]
    exact holds.sortedEvents
  obtain ⟨sorted', places⟩ := sorted_enterAll c.files.paths sorted
  have orders : ∀ ps : List Path,
      ps.map Path.order = (ps.map Path.components).map (List.map Path.Component.key) := by
    intro ps
    rw [List.map_map]
    rfl
  have injective := List.map_injective_iff.2 Path.Component.key_injective
  refine ⟨?_, fun cs => ?_⟩
  · have nodup := sorted'.nodup
    rw [orders] at nodup
    exact nodup.of_map _
  · have same := places (cs.map Path.Component.key)
    rw [start, holds.places, orders, orders, List.mem_map_of_injective injective,
      List.mem_map_of_injective injective] at same
    exact same

theorem foldl_addFile (errors warnings : Path → Nat) (ps : List Path) (s : Summary) :
    (ps.foldl (fun s p => Summary.addFile s (errors p) (warnings p)) s).failed =
      s.failed + ps.countP (fun p => decide (errors p > 0)) ∧
    (ps.foldl (fun s p => Summary.addFile s (errors p) (warnings p)) s).successful =
      s.successful + ps.countP (fun p => !decide (errors p > 0)) := by
  induction ps generalizing s with
  | nil => exact ⟨rfl, rfl⟩
  | cons p ps ih =>
    obtain ⟨failed, successful⟩ := ih (Summary.addFile s (errors p) (warnings p))
    rw [List.foldl_cons, failed, successful, List.countP_cons, List.countP_cons]
    by_cases failing : errors p > 0 <;> simp [Summary.addFile, failing] <;> omega

theorem summary_eq (c : Collector) :
    c.summary.failed = c.seen.countP c.hasErrors ∧
      c.summary.successful = c.seen.countP fun p => !c.hasErrors p := by
  have same : ∀ p, decide ((c.errorsOf p).length > 0) = c.hasErrors p := by
    intro p
    rw [hasErrors]
    cases c.errorsOf p <;> rfl
  have counts := foldl_addFile (fun p => (c.errorsOf p).length) (fun p => (c.warningsOf p).length)
    c.seen {}
  simp only [same, Nat.zero_add] at counts
  exact counts

theorem Holds.countP_seen (holds : Holds c entries) {f : Path → Bool}
    (congr : ∀ p q : Path, p.components = q.components → f p = f q) :
    c.seen.countP f = distinct ((filesOf entries).filter f) := by
  obtain ⟨nodup, seen⟩ := holds.seen
  have once : ((c.seen.filter f).map Path.components).Nodup :=
    nodup.sublist (List.filter_sublist.map _)
  rw [List.countP_eq_length_filter, ← List.length_map (f := Path.components),
    ← List.toFinset_card_of_nodup once, distinct]
  refine congrArg Finset.card (Finset.ext fun cs => ?_)
  -- a path among the files seen has a spelling among the files of the entries, and vice versa
  have across : ∀ {ps qs : List Path}, cs ∈ (ps.filter f).map Path.components →
      (cs ∈ ps.map Path.components → cs ∈ qs.map Path.components) →
      cs ∈ (qs.filter f).map Path.components := by
    intro ps qs member other
    obtain ⟨p, kept, rfl⟩ := List.mem_map.1 member
    obtain ⟨inside, yes⟩ := List.mem_filter.1 kept
    obtain ⟨q, inside', same⟩ := List.mem_map.1 (other (List.mem_map_of_mem inside))
    exact List.mem_map.2 ⟨q, List.mem_filter.2 ⟨inside', congr q p same ▸ yes⟩, same⟩
  rw [List.mem_toFinset, List.mem_toFinset]
  exact ⟨fun inside => across inside (seen cs).1, fun inside => across inside (seen cs).2⟩

/-- Of a list, those with a property are as many as those with another one that follows from it
exactly if the other one holds of no more. -/
theorem distinct_filter_eq_iff {f g : Path → Bool} (within : ∀ p, f p → g p)
    (congr : ∀ p q : Path, p.components = q.components → f p = f q) (ps : List Path) :
    distinct (ps.filter f) = distinct (ps.filter g) ↔ ∀ p ∈ ps, g p → f p := by
  have subset : ((ps.filter f).map Path.components).toFinset ⊆
      ((ps.filter g).map Path.components).toFinset := by
    intro cs inside
    simp only [List.mem_toFinset, List.mem_map, List.mem_filter] at inside ⊢
    obtain ⟨p, ⟨inside, yes⟩, rfl⟩ := inside
    exact ⟨p, ⟨inside, within p yes⟩, rfl⟩
  constructor
  · intro same p inside yes
    have all := Finset.eq_of_subset_of_card_le subset same.ge
    have member : p.components ∈ ((ps.filter g).map Path.components).toFinset := by
      simpa using ⟨p, ⟨inside, yes⟩, rfl⟩
    rw [← all] at member
    simp only [List.mem_toFinset, List.mem_map, List.mem_filter] at member
    obtain ⟨q, ⟨-, yes'⟩, same⟩ := member
    exact congr q p same ▸ yes'
  · intro noOther
    refine congrArg distinct (List.filter_congr fun p inside => ?_)
    rw [Bool.eq_iff_iff]
    exact ⟨within p, noOther p inside⟩

theorem errs_congr {p q : Path} (same : p.components = q.components) :
    errs entries p = errs entries q := by
  rw [errs, recorded_congr same, errs]

theorem errsEarly_congr {p q : Path} (same : p.components = q.components) :
    errsEarly entries p = errsEarly entries q := by
  rw [errsEarly, recorded_congr same, errsEarly]

theorem exists_of_errs (yes : errs entries p) :
    ∃ q ∈ filesOf entries, q.components = p.components := by
  obtain ⟨e, inside, -⟩ := List.any_eq_true.1 yes
  obtain ⟨x, inside, told⟩ := List.mem_filterMap.1 inside
  cases x with
  | record q e' =>
    refine ⟨q, List.mem_filterMap.2 ⟨_, inside, rfl⟩, ?_⟩
    by_contra other
    have different : q.same p = false := Bool.eq_false_iff.2 (mt Path.same_iff.1 other)
    simp [Entry.event?, different] at told
  | enter | clear => cases told

theorem forall_early_iff :
    (∀ p ∈ filesOf entries, errs entries p → errsEarly entries p) ↔
      ∀ p, errs entries p → errsEarly entries p := by
  refine ⟨fun all p yes => ?_, fun all p _ => all p⟩
  obtain ⟨q, inside, same⟩ := exists_of_errs yes
  rw [← errsEarly_congr same]
  exact all q inside (errs_congr same ▸ yes)

/-- A file counts as failed, and the others that were seen as successful, exactly if an error is
among the first events recorded for it since everything was cleared. So an error that was recorded
makes its file a failed one, in the counts and when asked for the file, exactly if each file with an
error has one among its first events. -/
theorem failed_files_of_history (history : List Entry) :
    (∀ p, (after history).hasErrors p = errsEarly (sinceClear history) p) ∧
    (after history).summary.failed =
      distinct ((filesOf (sinceClear history)).filter (errsEarly (sinceClear history))) ∧
    (after history).summary.successful =
      distinct ((filesOf (sinceClear history)).filter
        fun p => !errsEarly (sinceClear history) p) ∧
    List.TFAE [
      ∀ p, errs (sinceClear history) p → errsEarly (sinceClear history) p,
      ∀ p, (after history).hasErrors p = errs (sinceClear history) p,
      (after history).summary.failed =
        distinct ((filesOf (sinceClear history)).filter (errs (sinceClear history))),
      (after history).summary.successful =
        distinct ((filesOf (sinceClear history)).filter
          fun p => !errs (sinceClear history) p)] := by
  have holds := Holds.after history
  generalize after history = c at holds ⊢
  generalize sinceClear history = entries at holds ⊢
  have same : c.hasErrors = errsEarly entries := funext holds.hasErrors_eq
  obtain ⟨failed, successful⟩ := summary_eq c
  rw [same] at failed successful
  rw [holds.countP_seen fun _ _ => errsEarly_congr] at failed
  rw [holds.countP_seen fun _ _ alike => congrArg not (errsEarly_congr alike)] at successful
  refine ⟨holds.hasErrors_eq, failed, successful, ?_⟩
  -- each law compares what is counted early with all that is recorded
  rw [failed, successful, same, ← forall_early_iff]
  tfae_have 1 ↔ 2 := by
    rw [forall_early_iff]
    refine forall_congr' fun p => ?_
    exact ⟨fun early => Bool.eq_iff_iff.2 ⟨errs_of_errsEarly, early⟩,
      fun same => (Bool.eq_iff_iff.1 same).2⟩
  tfae_have 1 ↔ 3 :=
    (distinct_filter_eq_iff (fun _ => errs_of_errsEarly) (fun _ _ => errsEarly_congr) _).symm
  tfae_have 1 ↔ 4 := by
    rw [eq_comm, distinct_filter_eq_iff (fun p no => ?_)
      (fun _ _ alike => congrArg not (errs_congr alike))]
    · refine forall₂_congr fun p _ => ?_
      simpa using (not_imp_not (a := errsEarly entries p) (b := errs entries p)).symm
    · simpa using mt errs_of_errsEarly (by simpa using no)
  tfae_finish

/-- As many warnings as events are kept for a file, and an error behind them. -/
def lateError : List Entry :=
  List.replicate eventLimit (.record ⟨"x.xml"⟩ (.make .warning .warning "careful")) ++
    [.record ⟨"x.xml"⟩ (.make .error .wrongRoot "wrong root")]

theorem failed_files_of_lateError :
    errs (sinceClear lateError) ⟨"x.xml"⟩ = true ∧ (after lateError).hasErrors ⟨"x.xml"⟩ = false ∧
    (after lateError).summary.failed = 0 ∧ (after lateError).summary.successful = 1 := by
  have all : sinceClear lateError = lateError := by
    rw [sinceClear, List.rtakeWhile_eq_self_iff]
    intro x inside
    rcases List.mem_append.1 inside with first | last
    · rw [List.eq_of_mem_replicate first]
      rfl
    · rw [List.mem_singleton.1 last]
      rfl
  have told : recorded ⟨"x.xml"⟩ lateError =
      List.replicate eventLimit (.make .warning .warning "careful") ++
        [.make .error .wrongRoot "wrong root"] := by
    rw [recorded, lateError, List.filterMap_append, List.filterMap_replicate_of_some (by rfl)]
    rfl
  have files : filesOf lateError = List.replicate (eventLimit + 1) ⟨"x.xml"⟩ := by
    rw [filesOf, lateError, List.filterMap_append, List.filterMap_replicate_of_some (by rfl),
      List.replicate_succ']
    rfl
  have late : errsEarly lateError ⟨"x.xml"⟩ = false := by
    rw [errsEarly, told, List.take_left' List.length_replicate, List.any_replicate]
    rfl
  obtain ⟨asked, failed, successful, -⟩ := failed_files_of_history lateError
  rw [all] at asked failed successful ⊢
  rw [files, List.filter_replicate_of_neg (by simp [late])] at failed
  rw [files, List.filter_replicate_of_pos (by simp [late]), distinct, List.map_replicate,
    List.toFinset_replicate_of_ne_zero (Nat.succ_ne_zero _)] at successful
  refine ⟨?_, (asked _).trans late, failed, successful⟩
  rw [errs, told, List.any_append]
  exact Bool.or_true _

end Collector

end Barrage
