import Columnar.Proofs.Failures
import Mathlib.Data.List.DropRight
import Mathlib.Data.List.Sort

/-!
# The collector along a history

A collector is asked to record failures and to give up the first, in any order. What it answers
depends on what has come of all requests so far, its events, and of these only on those after the
position was last taken: `sinceTaken` reads off the events which failures were recorded at a
position since then. The first of them waits in the collector, one step keeps that so
(`Reflects.serve`), and everything that is asked of a collector follows.
-/

namespace Columnar.Failures

variable {ε : Type}

/-! ### Requests and events -/

inductive Request (ε : Type) where
  | record (position : Nat) (failure : ε)
  | take
deriving DecidableEq

inductive Event (ε : Type) where
  | recorded (position : Nat) (failure : ε)
  | taken (answer : Option (Nat × ε))
deriving DecidableEq

/-- Whether the failure of a position was taken. -/
def Event.takes (p : Nat) : Event ε → Bool
  | recorded _ _ => false
  | taken answer => answer.any fun entry => entry.1 == p

def Event.failureAt? (p : Nat) : Event ε → Option ε
  | recorded position failure => if position = p then some failure else none
  | taken _ => none

def serve (failures : Failures ε) : Request ε → Event ε × Failures ε
  | .record position failure => (.recorded position failure, failures.record position failure)
  | .take => (.taken failures.takeFirst.1, failures.takeFirst.2)

/-- The collector after some requests. -/
def after (failures : Failures ε) (requests : List (Request ε)) : Failures ε :=
  requests.foldl (fun failures request => (failures.serve request).2) failures

def events (failures : Failures ε) : List (Request ε) → List (Event ε)
  | [] => []
  | request :: rest => (failures.serve request).1 :: (failures.serve request).2.events rest

/-- The failures recorded at a position since it was last taken, oldest first. -/
def sinceTaken (history : List (Event ε)) (p : Nat) : List ε :=
  (history.rtakeWhile fun event => !event.takes p).filterMap (Event.failureAt? p)

variable {failures other : Failures ε} {past : List (Event ε)} {p q : Nat} {failure : ε}

theorem after_append (failures : Failures ε) (earlier later : List (Request ε)) :
    failures.after (earlier ++ later) = (failures.after earlier).after later :=
  List.foldl_append

/-- Taking a position begins its list anew, and recording there makes it longer. -/
theorem sinceTaken_concat (past : List (Event ε)) (event : Event ε) (p : Nat) :
    sinceTaken (past ++ [event]) p =
      if event.takes p then [] else sinceTaken past p ++ (event.failureAt? p).toList := by
  unfold sinceTaken
  rw [List.rtakeWhile_concat]
  cases event.takes p with
  | true => rfl
  | false =>
    rw [if_pos (show (!false) = true from rfl), if_neg Bool.false_ne_true, List.filterMap_append]
    cases hfailure : event.failureAt? p with
    | none => rw [List.filterMap_cons_none hfailure, List.filterMap_nil, Option.toList_none]
    | some failure => rw [List.filterMap_cons_some hfailure, List.filterMap_nil, Option.toList_some]

def recordAll (records : List (Nat × ε)) : List (Request ε) :=
  records.map fun entry => .record entry.1 entry.2

/-! ### Entries -/

theorem mem_entries_iff (h : failures.Ascending) :
    (p, failure) ∈ failures.entries ↔ failures.get? p = some failure := by
  obtain ⟨entries⟩ := failures
  induction entries with
  | nil => exact iff_of_false List.not_mem_nil nofun
  | cons head rest ih =>
    obtain ⟨position, first⟩ := head
    obtain ⟨hhead, hrest⟩ := List.pairwise_cons.1 h
    rw [List.mem_cons, get?_cons, ih hrest]
    by_cases hp : p = position
    · have hnone : get? ⟨rest⟩ p = none :=
        get?_eq_none_of_lt fun entry hentry => hp ▸ hhead entry hentry
      rw [if_pos hp, hnone, hp]
      simp [eq_comm]
    · rw [if_neg hp]
      exact or_iff_right fun heq => hp (Prod.mk.inj heq).1

/-- A collector is known by what it has at each position. -/
theorem Ascending.ext (h : failures.Ascending) (hother : other.Ascending)
    (hget : ∀ p, failures.get? p = other.get? p) : failures = other := by
  have : Std.Antisymm fun a b : Nat × ε => a.1 < b.1 :=
    ⟨fun _ _ hab hba => absurd hba (Nat.lt_asymm hab)⟩
  have : Std.Irrefl fun a b : Nat × ε => a.1 < b.1 := ⟨fun a => Nat.lt_irrefl a.1⟩
  have hentries : failures.entries = other.entries :=
    List.Pairwise.eq_of_mem_iff h hother fun entry => by
      rw [mem_entries_iff h, mem_entries_iff hother, hget]
  exact congrArg Failures.mk hentries

theorem Ascending.takeFirst (h : failures.Ascending) : failures.takeFirst.2.Ascending := by
  obtain ⟨_ | ⟨first, rest⟩⟩ := failures
  · exact h
  · exact (List.pairwise_cons.1 h).2

/-- Taking clears the position whose failure is given up, and no other. -/
theorem get?_takeFirst (h : failures.Ascending) (p : Nat) :
    failures.takeFirst.2.get? p =
      if failures.takeFirst.1.any fun entry => entry.1 == p then none else failures.get? p := by
  obtain ⟨_ | ⟨⟨position, first⟩, rest⟩⟩ := failures
  · rfl
  · change get? ⟨rest⟩ p = if position == p then none else get? ⟨(position, first) :: rest⟩ p
    rw [get?_cons]
    by_cases hp : position = p
    · rw [if_pos (beq_iff_eq.2 hp)]
      exact get?_eq_none_of_lt fun entry hentry => hp ▸ (List.pairwise_cons.1 h).1 entry hentry
    · rw [if_neg fun heq => hp (beq_iff_eq.1 heq), if_neg (Ne.symm hp)]

/-! ### One request -/

theorem Ascending.serve (h : failures.Ascending) (request : Request ε) :
    (failures.serve request).2.Ascending := by
  cases request with
  | record position failure => exact h.record position failure
  | take => exact h.takeFirst

/-- What waits at each position is the first failure since the position was last taken. -/
structure Reflects (failures : Failures ε) (past : List (Event ε)) : Prop where
  ascending : failures.Ascending
  get?_eq : ∀ p, failures.get? p = (sinceTaken past p).head?

theorem reflects_empty : (empty : Failures ε).Reflects [] where
  ascending := ascending_empty
  get?_eq _ := rfl

theorem Reflects.serve (h : failures.Reflects past) (request : Request ε) :
    (failures.serve request).2.Reflects (past ++ [(failures.serve request).1]) := by
  cases request with
  | record position failure =>
    refine ⟨h.ascending.serve _, fun p => ?_⟩
    have hkept : sinceTaken (past ++ [.recorded position failure]) p =
        sinceTaken past p ++ (if position = p then some failure else none).toList :=
      sinceTaken_concat past (.recorded position failure) p
    change (failures.record position failure).get? p = _
    change _ = (sinceTaken (past ++ [.recorded position failure]) p).head?
    rw [hkept, get?_record h.ascending, List.head?_append, h.get?_eq, h.get?_eq]
    by_cases hp : p = position
    · rw [if_pos hp, if_pos hp.symm, hp]
      rfl
    · rw [if_neg hp, if_neg (Ne.symm hp)]
      exact (Option.or_none).symm
  | take =>
    refine ⟨h.ascending.serve _, fun p => ?_⟩
    have hkept : sinceTaken (past ++ [.taken failures.takeFirst.1]) p =
        if failures.takeFirst.1.any fun entry => entry.1 == p then [] else
          sinceTaken past p ++ [] :=
      sinceTaken_concat past (.taken failures.takeFirst.1) p
    change failures.takeFirst.2.get? p = _
    change _ = (sinceTaken (past ++ [.taken failures.takeFirst.1]) p).head?
    rw [hkept, get?_takeFirst h.ascending, List.append_nil, h.get?_eq]
    split <;> rfl

theorem Reflects.after (h : failures.Reflects past) (requests : List (Request ε)) :
    (failures.after requests).Reflects (past ++ failures.events requests) := by
  induction requests generalizing failures past with
  | nil =>
    rw [events, List.append_nil]
    exact h
  | cons request rest ih =>
    have hrest := ih (h.serve request)
    rw [List.append_assoc] at hrest
    exact hrest

/-! ### Many requests of one kind -/

theorem Ascending.after (h : failures.Ascending) (requests : List (Request ε)) :
    (failures.after requests).Ascending := by
  induction requests generalizing failures with
  | nil => exact h
  | cons request rest ih => exact ih (h.serve request)

/-- Of failures recorded together, the first at each position counts, unless one was there
before. -/
theorem get?_after_recordAll (h : failures.Ascending) (records : List (Nat × ε)) (q : Nat) :
    (failures.after (recordAll records)).get? q =
      (failures.get? q).or ((records.find? fun entry => entry.1 == q).map Prod.snd) := by
  induction records generalizing failures with
  | nil => exact (Option.or_none).symm
  | cons entry rest ih =>
    obtain ⟨position, failure⟩ := entry
    refine (ih (h.record position failure)).trans ?_
    rw [get?_record h, List.find?_cons]
    by_cases hq : q = position
    · rw [if_pos hq, beq_iff_eq.2 hq.symm, hq, Option.or_assoc]
      rfl
    · rw [if_neg hq, beq_false_of_ne (Ne.symm hq)]

theorem after_recordAll_congr (h : failures.Ascending) {records reordered : List (Nat × ε)}
    (hsame : ∀ p, (records.filter fun entry => entry.1 == p) =
      reordered.filter fun entry => entry.1 == p) :
    failures.after (recordAll records) = failures.after (recordAll reordered) := by
  refine (h.after _).ext (h.after _) fun q => ?_
  rw [get?_after_recordAll h, get?_after_recordAll h, ← List.head?_filter, ← List.head?_filter,
    hsame]

/-- Taking again and again gives up the entries one by one, and then nothing. -/
theorem events_replicate_take (failures : Failures ε) (n : Nat) :
    failures.events (.replicate n .take) =
      (List.range n).map fun k => .taken failures.entries[k]? := by
  induction n generalizing failures with
  | zero => rfl
  | succ n ih =>
    rw [List.replicate_succ, events, List.range_succ_eq_map, List.map_cons, List.map_map]
    obtain ⟨_ | ⟨first, rest⟩⟩ := failures
    · exact congrArg _ (ih empty)
    · exact congrArg _ (ih ⟨rest⟩)

/-! ### Whole histories -/

/-- The collector after some requests to an empty one. -/
def collected (requests : List (Request ε)) : Failures ε := empty.after requests

def history (requests : List (Request ε)) : List (Event ε) := empty.events requests

theorem collected_append (earlier later : List (Request ε)) :
    collected (earlier ++ later) = (collected earlier).after later :=
  after_append empty earlier later

theorem reflects_collected (requests : List (Request ε)) :
    (collected requests).Reflects (history requests) := reflects_empty.after requests

/-- A first-write-wins map in ascending order. After any requests, taking gives up the lowest
position at which a failure was recorded since the position was last taken, with the first such
failure, and nothing if there is none. What waits is as many entries as the collector counts, one
for each such position, and taking again and again gives them up in ascending order. In a run of
records between other requests those of different positions can change places, and neither the
collector nor any later answer is another. -/
theorem takeFirst_collected (requests : List (Request ε)) :
    (∀ p failure, (collected requests).takeFirst.1 = some (p, failure) ↔
      (sinceTaken (history requests) p).head? = some failure ∧
        ∀ q < p, sinceTaken (history requests) q = []) ∧
    ((collected requests).takeFirst.1 = none ↔ ∀ q, sinceTaken (history requests) q = []) ∧
    ((collected requests).isEmpty = true ↔ (collected requests).size = 0) ∧
    (∃ waiting : List (Nat × ε), (waiting.Pairwise fun a b => a.1 < b.1) ∧
      (∀ p failure, (p, failure) ∈ waiting ↔
        (sinceTaken (history requests) p).head? = some failure) ∧
      (collected requests).size = waiting.length ∧
      ∀ n, (collected requests).events (.replicate n .take) =
        (List.range n).map fun k => .taken waiting[k]?) ∧
    ∀ records reordered : List (Nat × ε),
      (∀ p, (records.filter fun entry => entry.1 == p) =
        reordered.filter fun entry => entry.1 == p) →
      ∀ later, collected (requests ++ recordAll records ++ later) =
          collected (requests ++ recordAll reordered ++ later) ∧
        (collected (requests ++ recordAll records)).events later =
          (collected (requests ++ recordAll reordered)).events later := by
  have h := reflects_collected requests
  have hnone : ∀ q, (collected requests).get? q = none ↔ sinceTaken (history requests) q = [] :=
    fun q => by rw [h.get?_eq, List.head?_eq_none_iff]
  refine ⟨fun p failure => ?_, ?_, ?_, ?_, fun records reordered hsame later => ?_⟩
  · rw [takeFirst_eq_some_iff h.ascending, h.get?_eq]
    simp only [hnone]
  · rw [takeFirst_eq_none_iff]
    simp only [hnone]
  · exact List.isEmpty_iff.trans List.length_eq_zero_iff.symm
  · refine ⟨(collected requests).entries, h.ascending, fun p failure => ?_, rfl, ?_⟩
    · rw [mem_entries_iff h.ascending, h.get?_eq]
    · exact events_replicate_take (collected requests)
  · have hblock : collected (requests ++ recordAll records) =
        collected (requests ++ recordAll reordered) := by
      rw [collected_append, collected_append, after_recordAll_congr h.ascending hsame]
    rw [collected_append, hblock, ← collected_append]
    exact ⟨rfl, rfl⟩

/-- Two failures at position 1, which is taken and recorded again. -/
def repeatedPosition : List (Request String) :=
  [.record 3 "c", .record 1 "a", .record 1 "b", .take, .record 1 "d"]

/-- The second failure at position 1 counts once the first is taken, and those at positions 1 and 2
change places with each other only. -/
theorem takeFirst_collected_repeatedPosition :
    (collected repeatedPosition).takeFirst.1 = some (1, "d") ∧
      (collected repeatedPosition).events [.take, .take, .take] =
        [.taken (some (1, "d")), .taken (some (3, "c")), .taken none] ∧
      (∀ p, ([(2, "e"), (1, "f"), (2, "g")].filter fun entry : Nat × String => entry.1 == p) =
        [(1, "f"), (2, "e"), (2, "g")].filter fun entry => entry.1 == p) ∧
      (collected (repeatedPosition ++ recordAll [(2, "e"), (1, "f"), (2, "g")])).events
          [.take, .take] =
        (collected (repeatedPosition ++ recordAll [(1, "f"), (2, "e"), (2, "g")])).events
          [.take, .take] := by
  obtain ⟨hfirst, -, -, -, hreorder⟩ := takeFirst_collected repeatedPosition
  have hsame : ∀ p, ([(2, "e"), (1, "f"), (2, "g")].filter fun entry : Nat × String =>
      entry.1 == p) = [(1, "f"), (2, "e"), (2, "g")].filter fun entry => entry.1 == p := by
    intro p
    by_cases hone : 1 = p
    · subst hone
      rfl
    · simp [List.filter_cons, hone]
  exact ⟨(hfirst 1 "d").2 ⟨by decide, by decide⟩, by decide, hsame,
    (hreorder _ _ hsame [.take, .take]).2⟩

end Columnar.Failures
