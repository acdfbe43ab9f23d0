import Swayr.Cmds.Sequence

/-!
# Urgent windows first

With window lists as `get_windows` returns them, a switch sequence should focus
every urgent window before any other. The list has the urgent windows in front,
so that the first branch finds them first. But it leaves the last recently used
window to the second branch even if that window is urgent, and is then overtaken
by whatever else matches.
-/

namespace Swayr.Theorems.UrgentFirst

open Cmds SwitchToMatchingData Focus

/-- The windows of the call are listed by `get_windows`, of some tree and with
some ticks. -/
def FromGetWindows (c : Call) : Prop := ∃ (t : Tree) (ticks : TickMap), c.wins = t.getWindows ticks

/-- All urgent windows other than the origin are among the requests, and before
every window that is not urgent. -/
structure UrgentBefore (sg : Stage) (rs : List Int) : Prop where
  requested : ∀ u ∈ sg.windows, u ≠ sg.origin → sg.urgent u = true → u ∈ rs
  before : ∀ xs g ys, rs = xs ++ g :: ys → sg.urgent g = false →
    ∀ u ∈ sg.windows, u ≠ sg.origin → sg.urgent u = true → u ∈ xs

/-- The last recently used window `l` is urgent and not skipped, and when it is
the only urgent window left, some window that is not urgent matches. -/
def Overtaken (sg : Stage) (l : Option Int) (rs : List Int) : Prop :=
  ∃ u, sg.skipLru = false ∧ l = some u ∧ sg.urgent u = true ∧ ∃ past, past <+: rs ∧ u ∉ past ∧
    (∀ v ∈ sg.windows, v ≠ sg.origin → sg.urgent v = true → v ≠ u → v ∈ past) ∧
    ∃ m ∈ sg.windows, m ≠ sg.origin ∧ m ∉ past ∧ sg.urgent m = false ∧ sg.matching past m = true

variable {sg : Stage} {l : Option Int} {rs : List Int} {c : Call}

/-- `get_windows` puts urgent windows first. -/
theorem pairwise_urgent (hw : FromGetWindows c) :
    c.wins.Pairwise fun a b => b.node.urgent = true → a.node.urgent = true := by
  obtain ⟨t, ticks, hwins⟩ := hw
  have h := Tree.windowNodes_urgentFirst ticks t.root
  rw [← t.getWindows_node ticks, List.pairwise_map] at h
  rwa [hwins]

/-- What the first branch passes over on its way to a window that is not urgent:
no urgent window, apart from the last recently used one. -/
theorem urgent_requested_of_target {stm : SwitchToMatchingData} {w : DisplayNode}
    (hskip : sg.skipUrgent = false) (hw : FromGetWindows c) (hs : sg.Shows rs c)
    (hrs : ∀ i ∈ rs, i ∈ sg.windows) (hent : Entered sg l rs stm)
    (hnext : stm.nextTarget c.wins c.pred = some w) (hg : sg.urgent w.node.id = false) {u : Int}
    (hu : u ∈ sg.windows) (hne : u ≠ sg.origin) (hurgent : sg.urgent u = true)
    (hlru : ¬ (sg.skipLru = false ∧ l = some u)) : u ∈ rs := by
  by_contra hnew
  obtain ⟨v, hv, rfl⟩ := hs.exists_win hu
  have htarget : sg.IsTarget rs v.node.id := ⟨hu, hne, .inl ⟨hskip, hurgent⟩⟩
  have hwanted := (hent.wanted_iff hs hrs hv).mpr ⟨htarget, hnew, hlru⟩
  -- `v` is still urgent and `w` is not, so `v` is listed first and was found first
  have hvu : v.node.urgent = true := by rw [hs.urgent_eq v hv hne hnew, hurgent]
  obtain ⟨-, before, after, hsplit, hbefore⟩ := List.find?_eq_some_iff_append.mp hnext
  have hpair := pairwise_urgent hw
  rw [hsplit] at hv hpair
  have hwmem : w ∈ c.wins := by
    rw [hsplit]
    simp
  have hwu : w.node.urgent = false := by
    by_contra h
    have := hs.urgent_of w hwmem (by simpa using h)
    simp [hg] at this
  rcases List.mem_append.mp hv with hv | hv
  · have := hbefore v hv
    rw [hwanted] at this
    simp at this
  · rcases List.mem_cons.mp hv with rfl | hv
    · simp [hvu] at hwu
    · have := (List.pairwise_cons.mp (List.pairwise_append.mp hpair).2.1).1 v hv hvu
      simp [hwu] at this

section finished

variable {calls : ℕ → Call} {n : ℕ} {tail : List Action}

/-- An urgent window that is missing when a window that is not urgent is requested
is the last recently used one, and that request was found by the first branch. -/
theorem overtaken_of_missing (hskip : sg.skipUrgent = false)
    (hw : ∀ n, FromGetWindows (calls n)) (h : sg.Finished l calls n rs tail)
    {xs ys : List Int} {g u : Int} (heq : rs = xs ++ g :: ys) (hg : sg.urgent g = false)
    (hu : u ∈ sg.windows) (hne : u ≠ sg.origin) (hurgent : sg.urgent u = true) (hnew : u ∉ xs) :
    Overtaken sg l rs := by
  have hxs : xs <+: rs := ⟨_, heq.symm⟩
  have hs := h.shows xs hxs
  have hmem : ∀ i ∈ xs, i ∈ sg.windows := fun i hi => (h.mem i (hxs.subset hi)).1
  obtain ⟨hgoal, hgnew⟩ := h.isGoal heq
  have hgmem := h.mem g (by simp [heq])
  have hreq := h.requests xs g ys heq
  cases hreq with
  | target hent hnext =>
      have hothers := fun v hv hvo hvu hvl => urgent_requested_of_target hskip (hw _) hs hmem hent
        hnext hg (u := v) hv hvo hvu hvl
      have hlru : sg.skipLru = false ∧ l = some u := by
        by_contra hlru
        exact hnew (hothers u hu hne hurgent hlru)
      have hmatch := hgoal
      rcases hmatch with ⟨-, -, hwhy⟩ | ⟨-, hl⟩
      · have hmatching := hwhy.resolve_left (by simp [hg])
        refine ⟨u, hlru.1, hlru.2, hurgent, xs, hxs, hnew, fun v hv hvo hvu hvne => ?_, _, hgmem.1,
          hgmem.2, hgnew, hg, hmatching⟩
        exact hothers v hv hvo hvu fun hvl => hvne (Option.some.inj (hvl.2.symm.trans hlru.2))
      · rw [Option.some.inj (hlru.2.symm.trans hl), hg] at hurgent
        simp at hurgent
  | lru hent hnext hlru =>
      -- then all other targets have been requested
      exfalso
      obtain ⟨-, hl, -⟩ := lruTarget_spec hlru
      have htarget : sg.IsTarget xs u := ⟨hu, hne, .inl ⟨hskip, hurgent⟩⟩
      refine hnew (hent.targets_requested hs hmem hnext htarget fun hul => ?_)
      rw [hent.lru, hul.2] at hl
      rw [Option.some.inj hl, hg] at hurgent
      simp at hurgent

/-- If it is overtaken, the window that matches, or another that is not urgent, is
requested before the last recently used one. -/
theorem not_before_of_overtaken (h : sg.Finished l calls n rs tail)
    (hl : ∀ i, l = some i → i ∈ sg.windows ∧ i ≠ sg.origin) (hover : Overtaken sg l rs) :
    ¬ UrgentBefore sg rs := by
  rintro ⟨hrequested, hbefore⟩
  obtain ⟨u, hskip, hlu, hurgent, past, ⟨zs, hzs⟩, hnew, hothers, m, hm, hmo, hmnew, hmu, hmatch⟩ :=
    hover
  obtain ⟨hu, huo⟩ := hl u hlu
  have hs := h.shows past ⟨zs, hzs⟩
  have hmem : ∀ i ∈ past, i ∈ sg.windows := fun i hi =>
    (h.mem i (hzs ▸ List.mem_append_left _ hi)).1
  cases zs with
  | nil =>
      rw [List.append_nil] at hzs
      exact hnew (hzs ▸ hrequested u hu huo hurgent)
  | cons g zs =>
      have hgnew := (h.isGoal hzs.symm).2
      have hgmem := h.mem g (by simp [← hzs])
      have hg : sg.urgent g = false := by
        by_contra hgu
        rw [Bool.not_eq_false] at hgu
        -- only the last recently used window could be urgent, and `m` comes before it
        have hgu' : g = u := by
          by_contra hne
          exact hgnew (hothers g hgmem.1 hgmem.2 hgu hne)
        have hreq := h.requests past g zs hzs.symm
        have hmtarget : sg.IsTarget past m := ⟨hm, hmo, .inr hmatch⟩
        cases hreq with
        | target hent hnext =>
            have hcond := List.find?_some hnext
            have hwanted := (hent.wanted_iff hs hmem (List.mem_of_find?_eq_some hnext)).mp hcond
            exact hwanted.2.2 ⟨hskip, by rw [hlu, hgu']⟩
        | lru hent hnext _ =>
            refine hmnew (hent.targets_requested hs hmem hnext hmtarget fun hml => ?_)
            rw [Option.some.inj (hml.2.symm.trans hlu), hurgent] at hmu
            simp at hmu
      exact hnew (hbefore past g zs hzs.symm hg u hu huo hurgent)

end finished

/-- **Documented priority.** Without `skip_urgent` and with lists as `get_windows`
returns them, a sequence focuses every urgent window other than the origin before
any window that is not urgent, exactly if the last recently used window is not
overtaken. -/
theorem urgent_first_iff (sg : Stage) (calls : ℕ → Call) (hskip : sg.skipUrgent = false)
    (hp : sg.Played calls) (hw : ∀ n, FromGetWindows (calls n)) :
    ∃ l n rs tail,
      sg.trace calls n = .initialized sg.recorded l :: rs.map .focus ++ .reset :: tail ∧
      sg.IsLru (calls 0).ticks l ∧ (UrgentBefore sg rs ↔ ¬ Overtaken sg l rs) := by
  obtain ⟨l, n, rs, tail, hl, hfin⟩ := Stage.finishes hp
  refine ⟨l, n, rs, tail, hfin.trace, hl, fun hfirst hover => ?_, fun hover => ⟨?_, ?_⟩⟩
  · exact not_before_of_overtaken hfin hl.ne_origin hover hfirst
  · exact fun u hu hne hurgent => hfin.covered u (.inl ⟨hu, hne, .inl ⟨hskip, hurgent⟩⟩)
  · intro xs g ys heq hg u hu hne hurgent
    by_contra hnew
    exact hover (overtaken_of_missing hskip hw hfin heq hg hu hne hurgent hnew)

/-! ## An urgent window overtaken -/

section overtaken

open Ipc Swayr.Tree

/-- The first window is focused at the start; the second one is urgent until it is
focused. -/
def overtakenRoot (focus : Int) : Node :=
  let win (id pid : Int) : Node :=
    .mk ⟨{ id, nodeType := .con, pid := some pid, focused := id == focus,
           urgent := id == 604 && focus != 604 }, rfl⟩
      [] []
  .mk ⟨{ id := 600, nodeType := .root }, rfl⟩
    [.mk ⟨{ id := 601, nodeType := .output }, rfl⟩
      [.mk ⟨{ id := 602, nodeType := .workspace }, rfl⟩ [win 603 400, win 604 401, win 605 402]
        []] []] []

/-- The urgent window is the last recently used one; the third one matches. -/
def overtakenCall (focus : Int) : Call :=
  let ticks : TickMap := fun i => if i = 604 then some 9 else none
  { wins := (getTree (overtakenRoot focus)
      (show [600, 601, 602, 605, 604, 603].Nodup by decide)).getWindows ticks
    ticks
    pred := fun d => d.node.id == 605 }

def overtakenStage : Stage where
  windows := [603, 604, 605]
  distinct := by decide
  origin := 603
  origin_valid := by decide
  urgent i := i == 604
  matching _ i := i == 605
  skipUrgent := false
  skipLru := false
  skipOrigin := false

def overtakenCalls : ℕ → Call
  | 0 => overtakenCall 603
  | 1 => overtakenCall 605
  | _ => overtakenCall 604

theorem overtakenStage_played : overtakenStage.Played overtakenCalls := by
  intro n hn
  match n with
  | 0 => constructor <;> decide +kernel
  | 1 => constructor <;> decide +kernel
  | 2 => constructor <;> decide +kernel
  | n + 3 =>
      exact absurd (overtakenStage.mem_trace_of_le overtakenCalls (by omega : 3 ≤ n + 3)
        (by decide +kernel)) hn

theorem overtakenCalls_fromGetWindows (n : ℕ) : FromGetWindows (overtakenCalls n) := by
  match n with
  | 0 => exact ⟨_, _, rfl⟩
  | 1 => exact ⟨_, _, rfl⟩
  | n + 2 => exact ⟨_, _, rfl⟩

/-- A sequence in which a matching window comes first. -/
theorem urgent_first_iff_overtaken :
    ∃ l n rs tail,
      overtakenStage.trace overtakenCalls n =
        .initialized overtakenStage.recorded l :: rs.map .focus ++ .reset :: tail ∧
      overtakenStage.IsLru (overtakenCalls 0).ticks l ∧
      (UrgentBefore overtakenStage rs ↔ ¬ Overtaken overtakenStage l rs) :=
  urgent_first_iff overtakenStage overtakenCalls rfl overtakenStage_played
    overtakenCalls_fromGetWindows

/-- The matching window is focused before the urgent one. -/
theorem matching_before_urgent :
    overtakenStage.trace overtakenCalls 3 =
        [.initialized (some 603) (some 604), .focus 605, .focus 604, .reset, .focus 603] ∧
      ¬ UrgentBefore overtakenStage [605, 604] := by
  refine ⟨by decide +kernel, fun h => ?_⟩
  have := h.before [] 605 [604] rfl rfl 604 (by decide) (by decide) rfl
  simp at this

end overtaken

end Swayr.Theorems.UrgentFirst
