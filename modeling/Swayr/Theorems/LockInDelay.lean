import Mathlib.Data.List.Chain
import Mathlib.Data.List.TakeWhile
import Swayr.Focus.Timed

/-!
# The lock-in delay

Focus events alone are locked in exactly if no other follows within
`lockin_delay`. Without `seq_inhibit` the messages of the cycling commands should
make no difference. But a message that is ignored begins the wait anew, so that
it can put off a lock-in until the next focus event comes.
-/

namespace Swayr.Theorems.LockInDelay

open Kit Swayr.Focus

/-! ## Focus events alone -/

/-- Every element with the one after it, if there is one. -/
def withSuccessor {α : Type*} (l : List α) : List (α × Option α) :=
  l.zip (l.tail.map some ++ [none])

/-- The events whose successor comes more than `delay` later, or that have none. -/
def settled (delay : Nat) (evs : List (Int × FocusEvent)) : List FocusEvent :=
  ((withSuccessor evs).filter fun p => p.2.all fun next => (delay : Int) < next.1 - p.1.1).map
    fun p => p.1.2

def arrival (ev : Int × FocusEvent) : Arrival := ⟨ev.1, .focusEvent ev.2⟩

theorem withSuccessor_cons {α : Type*} (a : α) (l : List α) :
    withSuccessor (a :: l) = (a, l.head?) :: withSuccessor l := by
  cases l with
  | nil => rfl
  | cons b l => simp [withSuccessor]

theorem settled_cons (delay : Nat) (ev : Int × FocusEvent) (evs : List (Int × FocusEvent)) :
    settled delay (ev :: evs) =
      (if quiet delay (arrival ev) (evs.map arrival) then [ev.2] else []) ++ settled delay evs := by
  have hquiet : quiet delay (arrival ev) (evs.map arrival) =
      evs.head?.all fun next => (delay : Int) < next.1 - ev.1 := by
    cases evs <;> rfl
  rw [settled, withSuccessor_cons, List.filter_cons, hquiet]
  split <;> rfl

/-- **Lock-in delay.** With focus events alone, whatever the delay, the events
passed to `update_last_focus_tick` are, in order, those whose successor arrives
more than the delay later and the last one. -/
theorem lockedIn_focusEvents (seqInhibit : Bool) (delay : Nat) (evs : List (Int × FocusEvent)) :
    lockedIn seqInhibit delay (evs.map arrival) = settled delay evs := by
  unfold lockedIn
  change (focusLockInHandler seqInhibit).outputs (.waiting none) _ = _
  induction evs with
  | nil => rfl
  | cons ev evs ih =>
      have hhead : ∀ b ∈ (evs.map arrival).head?, b.msg.event?.isSome := by
        cases evs <;> simp [arrival, FocusMessage.event?]
      rw [settled_cons, ← ih, ← outputs_before_event seqInhibit ev.2 hhead, List.map_cons,
        receives]
      exact outputs_focusEvent seqInhibit none _ ev.2

/-! ## Ignored messages -/

/-- Between two messages no wait runs out. -/
def Soon (delay : Nat) (a b : Arrival) : Prop := b.time - a.time ≤ delay

instance (delay : Nat) (a b : Arrival) : Decidable (Soon delay a b) :=
  inferInstanceAs (Decidable (_ ≤ _))

/-- Two focus events more than the delay apart, with nothing but ignored
messages between them, which come soon enough after each other to keep the wait
from running out. -/
def PutOff (delay : Nat) (l : List Arrival) : Prop :=
  ∃ a mid b after, a :: (mid ++ b :: after) <:+ l ∧ a.isEvent ∧
    (∀ x ∈ mid, x.isEvent = false) ∧ b.isEvent ∧
    delay < b.time - a.time ∧ (a :: (mid ++ [b])).IsChain (Soon delay)

section ignored

variable {delay : Nat} {a : Arrival} {fev : FocusEvent} {mid tail : List Arrival}

/-- While no event waits, ignored messages leave no trace. -/
theorem outputs_skip (hmid : ∀ x ∈ mid, x.isEvent = false) :
    (focusLockInHandler false).outputs (.waiting none) (receives delay (mid ++ tail)) =
      (focusLockInHandler false).outputs (.waiting none) (receives delay tail) := by
  induction mid with
  | nil => rfl
  | cons x mid ih =>
      have hx : x.msg.event? = none := by simpa [Arrival.isEvent] using hmid x List.mem_cons_self
      have hrest := ih fun y hy => hmid y (List.mem_cons_of_mem _ hy)
      rw [List.cons_append, receives, outputs_ignored _ _ hx]
      split
      · rw [List.singleton_append, outputs_timeout]
        simpa using hrest
      · simpa using hrest

/-- What comes next decides whether it stays quiet for long enough. -/
theorem quiet_cons_iff {b : Arrival} {rest : List Arrival} :
    quiet delay a (b :: rest) = true ↔ ¬ Soon delay a b := by
  unfold quiet Soon
  simp only [List.head?_cons, Option.all_some, decide_eq_true_eq]
  omega

/-- The event that waits when `a` has arrived is lost exactly if another one
follows and the messages up to it come soon after each other. -/
theorem outputs_block (hmid : ∀ x ∈ mid, x.isEvent = false)
    (htail : ∀ b ∈ tail.head?, b.isEvent) :
    (focusLockInHandler false).outputs (.waiting (some fev))
        ((if quiet delay a (mid ++ tail) then [.timeout] else []) ++
          receives delay (mid ++ tail)) =
      (if tail ≠ [] ∧ (a :: (mid ++ tail.head?.toList)).IsChain (Soon delay) then []
        else [fev]) ++
        (focusLockInHandler false).outputs (.waiting none) (receives delay tail) := by
  induction mid generalizing a with
  | nil =>
      rw [List.nil_append, outputs_before_event false fev htail]
      cases tail with
      | nil => simp [quiet]
      | cons b tail =>
          by_cases hsoon : Soon delay a b <;> simp [quiet_cons_iff, hsoon]
  | cons x mid ih =>
      have hx : x.msg.event? = none := by simpa [Arrival.isEvent] using hmid x List.mem_cons_self
      have hmid' : ∀ y ∈ mid, y.isEvent = false := fun y hy =>
        hmid y (List.mem_cons_of_mem _ hy)
      have hquiet : quiet delay a (x :: (mid ++ tail)) = true ↔ ¬ Soon delay a x := quiet_cons_iff
      by_cases hsoon : Soon delay a x
      · -- the wait begins anew with `x`
        have hnot : quiet delay a (x :: (mid ++ tail)) = false := by
          simpa [hsoon] using hquiet
        rw [List.cons_append, hnot, receives]
        simp only [Bool.false_eq_true, if_false, List.nil_append, outputs_ignored _ _ hx]
        rw [ih hmid']
        simp [List.isChain_cons_cons, hsoon]
      · have hyes : quiet delay a (x :: (mid ++ tail)) = true := hquiet.mpr hsoon
        rw [List.cons_append, hyes, if_pos rfl, List.singleton_append, outputs_timeout,
          ← List.cons_append, outputs_skip hmid]
        simp [List.isChain_cons_cons, hsoon]

/-- Ignored messages at the front put nothing off. -/
theorem putOff_skip (hmid : ∀ x ∈ mid, x.isEvent = false) :
    PutOff delay (mid ++ tail) ↔ PutOff delay tail := by
  induction mid with
  | nil => rfl
  | cons x mid ih =>
      rw [← ih fun y hy => hmid y (List.mem_cons_of_mem _ hy), List.cons_append]
      constructor
      · rintro ⟨a, m, b, after, hsuffix, ha, hrest⟩
        rcases List.suffix_cons_iff.mp hsuffix with heq | hsuffix
        · obtain ⟨rfl, -⟩ := List.cons.inj heq
          simp [hmid a List.mem_cons_self] at ha
        · exact ⟨a, m, b, after, hsuffix, ha, hrest⟩
      · rintro ⟨a, m, b, after, hsuffix, hrest⟩
        exact ⟨a, m, b, after, hsuffix.trans (List.suffix_cons x _), hrest⟩

/-- The first event of a list and what is ignored before it are determined. -/
theorem first_event_unique {m m' after after' : List Arrival} {b b' : Arrival}
    (heq : m ++ b :: after = m' ++ b' :: after') (hm : ∀ x ∈ m, x.isEvent = false)
    (hm' : ∀ x ∈ m', x.isEvent = false) (hb : b.isEvent)
    (hb' : b'.isEvent) : m = m' ∧ b = b' := by
  have hfirst : ∀ (m after : List Arrival) (b : Arrival),
      (∀ x ∈ m, x.isEvent = false) → b.isEvent →
      (m ++ b :: after).takeWhile (fun x => !x.isEvent) = m ∧
        (m ++ b :: after).dropWhile (fun x => !x.isEvent) = b :: after := by
    intro m after b hm hb
    have hm' : ∀ x ∈ m, (!x.isEvent) = true := fun x hx => by simp [hm x hx]
    rw [List.takeWhile_append_of_pos hm', List.dropWhile_append_of_pos hm']
    simp [hb]
  obtain ⟨htake, hdrop⟩ := hfirst m after b hm hb
  obtain ⟨htake', hdrop'⟩ := hfirst m' after' b' hm' hb'
  rw [heq] at htake hdrop
  exact ⟨htake.symm.trans htake', (List.cons.inj (hdrop.symm.trans hdrop')).1⟩

/-- A lock-in is put off here, or later. -/
theorem putOff_block (ha : a.isEvent) (hmid : ∀ x ∈ mid, x.isEvent = false)
    (htail : ∀ b ∈ tail.head?, b.isEvent) :
    PutOff delay (a :: (mid ++ tail)) ↔
      (∃ b ∈ tail.head?, delay < b.time - a.time ∧
        (a :: (mid ++ [b])).IsChain (Soon delay)) ∨ PutOff delay tail := by
  constructor
  · rintro ⟨a', m, b, after, hsuffix, ha', hm, hb, hlate, hchain⟩
    rcases List.suffix_cons_iff.mp hsuffix with heq | hsuffix
    · obtain ⟨rfl, hrest⟩ := List.cons.inj heq
      cases tail with
      | nil =>
          -- no second event in sight
          have hmem : b ∈ mid := by
            rw [List.append_nil] at hrest
            rw [← hrest]
            simp
          simp [hmid b hmem] at hb
      | cons c tail =>
          obtain ⟨rfl, rfl⟩ := first_event_unique hrest hm hmid hb (htail c (by simp))
          exact .inl ⟨b, by simp, hlate, hchain⟩
    · exact .inr ((putOff_skip hmid).mp ⟨a', m, b, after, hsuffix, ha', hm, hb, hlate, hchain⟩)
  · rintro (⟨b, hb, hlate, hchain⟩ | h)
    · obtain ⟨after, rfl⟩ : ∃ after, tail = b :: after := by
        cases tail with
        | nil => simp at hb
        | cons c tail => exact ⟨tail, by simpa using hb⟩
      exact ⟨a, mid, b, after, List.suffix_rfl, ha, hmid, htail b hb, hlate, hchain⟩
    · obtain ⟨a', m, b, after, hsuffix, hrest⟩ := (putOff_skip hmid).mpr h
      exact ⟨a', m, b, after, hsuffix.trans (List.suffix_cons a _), hrest⟩

/-- Messages that arrive within the delay altogether come soon after each other. -/
theorem isChain_of_within {b : Arrival} (hsorted : (a :: (mid ++ [b])).Pairwise (·.time ≤ ·.time))
    (h : b.time - a.time ≤ delay) : (a :: (mid ++ [b])).IsChain (Soon delay) := by
  have hbounds : ∀ x ∈ a :: (mid ++ [b]), a.time ≤ x.time ∧ x.time ≤ b.time := by
    intro x hx
    rw [List.pairwise_cons, List.pairwise_append] at hsorted
    obtain ⟨hfirst, -, -, hlast⟩ := hsorted
    rcases List.mem_cons.mp hx with rfl | hx
    · exact ⟨Int.le_refl _, hfirst b (by simp)⟩
    · refine ⟨hfirst x hx, ?_⟩
      rcases List.mem_append.mp hx with hx | hx
      · exact hlast x hx b (by simp)
      · exact Int.le_of_eq (congrArg Arrival.time (List.mem_singleton.mp hx))
  refine List.Pairwise.isChain (List.pairwise_of_forall_mem_list fun x hx y hy => ?_)
  have := hbounds x hx
  have := hbounds y hy
  unfold Soon
  omega

/-- What is ignored up to the next event, and the rest. -/
theorem exists_block (l : List Arrival) : ∃ mid tail, l = mid ++ tail ∧
    (∀ x ∈ mid, x.isEvent = false) ∧ ∀ b ∈ tail.head?, b.isEvent := by
  refine ⟨l.takeWhile (fun x => !x.isEvent), l.dropWhile (fun x => !x.isEvent),
    List.takeWhile_append_dropWhile.symm, fun x hx => ?_, fun b hb => ?_⟩
  · simpa using List.mem_takeWhile_imp hx
  · have := List.head?_dropWhile_not (fun x => !x.isEvent) l
    rw [Option.mem_def.mp hb] at this
    simpa using this

/-- Ignored messages can only make a lock-in fail, and do so exactly where they
put one off. -/
def FilterAgrees (delay : Nat) (l : List Arrival) : Prop :=
  ((focusLockInHandler false).outputs (.waiting none) (receives delay l)).Sublist
      ((focusLockInHandler false).outputs (.waiting none)
        (receives delay (l.filter Arrival.isEvent))) ∧
    ((focusLockInHandler false).outputs (.waiting none) (receives delay l) =
        (focusLockInHandler false).outputs (.waiting none)
          (receives delay (l.filter Arrival.isEvent)) ↔ ¬ PutOff delay l)

/-- An arrival that is no focus event changes nothing. -/
theorem FilterAgrees.skip (ha : a.isEvent = false) (h : FilterAgrees delay tail) :
    FilterAgrees delay (a :: tail) := by
  have hone : ∀ x ∈ [a], x.isEvent = false := by simpa using ha
  unfold FilterAgrees at h ⊢
  rwa [← outputs_skip hone, ← putOff_skip hone,
    ← List.filter_cons_of_neg (by simpa using ha)] at h

/-- One event and what is ignored after it. -/
theorem FilterAgrees.block (ha : a.isEvent) (hmid : ∀ x ∈ mid, x.isEvent = false)
    (htail : ∀ b ∈ tail.head?, b.isEvent)
    (hsorted : (a :: (mid ++ tail)).Pairwise (·.time ≤ ·.time)) (h : FilterAgrees delay tail) :
    FilterAgrees delay (a :: (mid ++ tail)) := by
  obtain ⟨hsub, hiff⟩ := h
  obtain ⟨fev, hfev⟩ : ∃ fev, a.msg = .focusEvent fev := by
    cases hm : a.msg <;> simp_all [Arrival.isEvent, FocusMessage.event?]
  have hfilter : (a :: (mid ++ tail)).filter Arrival.isEvent =
      a :: tail.filter Arrival.isEvent := by
    rw [List.filter_cons_of_pos (by simpa using ha), List.filter_append,
      List.filter_eq_nil_iff.mpr (by simpa using hmid), List.nil_append]
  have hhead : ∀ b ∈ (tail.filter Arrival.isEvent).head?, b.isEvent :=
    fun b hb => (List.mem_filter.mp (List.mem_of_mem_head? hb)).2
  rw [FilterAgrees, hfilter, receives, receives, hfev, outputs_focusEvent, outputs_focusEvent,
    outputs_block hmid htail, outputs_before_event false fev hhead, putOff_block ha hmid htail]
  cases tail with
  | nil => simpa [quiet] using hiff
  | cons b tail =>
      have hb : b.isEvent := htail b (by simp)
      have hquiet : quiet delay a ((b :: tail).filter Arrival.isEvent) =
          decide (delay < b.time - a.time) := by
        simp [quiet, List.filter_cons_of_pos hb]
      simp only [List.head?_cons, Option.toList_some, Option.mem_def, Option.some.injEq,
        exists_eq_left', hquiet, decide_eq_true_eq, ne_eq, reduceCtorEq, not_false_eq_true,
        true_and]
      by_cases hlate : (delay : Int) < b.time - a.time
      · by_cases hchain : (a :: (mid ++ [b])).IsChain (Soon delay)
        · -- put off: only without the ignored messages the event is locked in
          simp only [hlate, hchain, if_true, List.nil_append, List.singleton_append, true_and,
            true_or, not_true_eq_false, iff_false]
          refine ⟨hsub.cons _, fun heq => ?_⟩
          have := hsub.length_le
          rw [heq, List.length_cons] at this
          omega
        · simp only [hlate, hchain, if_true, if_false, List.singleton_append, and_false, false_or]
          exact ⟨hsub.cons_cons _, by simpa using hiff⟩
      · have hchain : (a :: (mid ++ [b])).IsChain (Soon delay) := by
          refine isChain_of_within (hsorted.sublist ?_) (by omega)
          exact ((List.singleton_sublist.mpr (by simp)).append_left mid).cons_cons a
        simp only [hlate, hchain, if_true, if_false, List.nil_append, false_and, false_or]
        exact ⟨hsub, hiff⟩

/-- From the last arrival to the first. -/
theorem outputs_filter (l : List Arrival) (hsorted : l.Pairwise (·.time ≤ ·.time)) :
    FilterAgrees delay l := by
  -- by induction on the number of messages, one event and what is ignored after it at a time
  induction hk : l.length using Nat.strongRecOn generalizing l with
  | ind k ih =>
      subst hk
      cases l with
      | nil =>
          refine ⟨List.Sublist.refl _, iff_of_true rfl ?_⟩
          rintro ⟨a, m, b, after, hsuffix, -⟩
          simp at hsuffix
      | cons a rest =>
          cases ha : a.isEvent with
          | false => exact .skip ha (ih rest.length (by simp) rest hsorted.tail rfl)
          | true =>
              obtain ⟨mid, tail, rfl, hmid, htail⟩ := exists_block rest
              have hlen : tail.length < (a :: (mid ++ tail)).length := by
                simp only [List.length_cons, List.length_append]
                omega
              have hsorted' : tail.Pairwise (·.time ≤ ·.time) :=
                hsorted.sublist ((List.sublist_append_right mid tail).trans
                  (List.sublist_cons_self a _))
              exact .block ha hmid htail hsorted (ih tail.length hlen tail hsorted' rfl)

end ignored

/-- **`seq_inhibit = false` and cycling.** For every list of messages in the order
of their arrival, leaving out those that are ignored makes no difference to what
is passed to `update_last_focus_tick` exactly if they put off no lock-in. -/
theorem ignored_messages_iff (delay : Nat) (l : List Arrival)
    (hsorted : l.Pairwise (·.time ≤ ·.time)) :
    lockedIn false delay l = lockedIn false delay (l.filter Arrival.isEvent) ↔
      ¬ PutOff delay l :=
  (outputs_filter l hsorted).2

/-- A cycling command right after a focus change, another window focused later:
the first one is locked in either way. -/
theorem ignored_messages_iff_soon :
    lockedIn false 10 [⟨0, .focusEvent ⟨1, 1⟩⟩, ⟨5, .tickUpdateInhibit⟩,
        ⟨30, .focusEvent ⟨2, 2⟩⟩] =
      lockedIn false 10 [⟨0, .focusEvent ⟨1, 1⟩⟩, ⟨30, .focusEvent ⟨2, 2⟩⟩] ∧
    ¬ PutOff 10 [⟨0, .focusEvent ⟨1, 1⟩⟩, ⟨5, .tickUpdateInhibit⟩,
        ⟨30, .focusEvent ⟨2, 2⟩⟩] :=
  ⟨by decide, (ignored_messages_iff 10 _ (by decide)).mp (by decide)⟩

/-- With a delay of 10 a command at time 8 keeps the window focused at time 0
from being locked in, although the next one is focused at time 15 only. -/
theorem ignored_message_puts_off :
    lockedIn false 10 [⟨0, .focusEvent ⟨1, 1⟩⟩, ⟨8, .tickUpdateActivate⟩,
        ⟨15, .focusEvent ⟨2, 2⟩⟩] = [⟨2, 2⟩] ∧
      lockedIn false 10 [⟨0, .focusEvent ⟨1, 1⟩⟩, ⟨15, .focusEvent ⟨2, 2⟩⟩] =
        [⟨1, 1⟩, ⟨2, 2⟩] := by
  decide

end Swayr.Theorems.LockInDelay
