import Swayr.Layout.AutoTile

/-!
# Auto-tiling and its documentation

The README says when a window is split: vertically if another window beside it
would make it smaller than the minimum, horizontally if it would still be at
least as wide. `auto_tile` draws the line one step further: it splits vertically
already if the half is equal to the minimum. The scratchpad, which should be left
alone, is recognised by the name of the container at hand, not by the names
above it.
-/

namespace Swayr.Theorems.AutoTile

open Ipc Swayr.Tree Kit Layout

/-! ## Widths as `f32` -/

/-- Small numbers are not rounded. -/
theorem roundF32_of_lt {n : Nat} (h : n < 16777216) : roundF32 n = n := by
  have hlog : n.log2 - 23 = 0 := by
    by_cases hn : n = 0
    · subst hn
      decide
    · have : n.log2 < 24 := (Nat.log2_lt hn).mpr h
      omega
  simp [roundF32, hlog]

theorem asF32_of_lt {i : Int} (h : i.natAbs < 16777216) : asF32 i = i := by
  rw [asF32, roundF32_of_lt h]
  split <;> omega

/-! ## The documented decision -/

/-- The README's decision for a window of the given width. -/
def documentedSplit (layout : NodeLayout) (minWindowWidth width : Int) : Option Split :=
  if layout = .splitH ∧ width < 2 * minWindowWidth then some .splitv
  else if layout = .splitV ∧ 2 * minWindowWidth ≤ width then some .splith
  else none

/-- The code and the documentation differ for twice the minimal width only. -/
theorem splitOf_eq_documentedSplit {layout : NodeLayout} {m w : Int}
    (hm : m.natAbs < 16777216) (hw : w.natAbs < 16777216) :
    splitOf layout m w = documentedSplit layout m w ↔
      ¬ (w = 2 * m ∧ (layout = .splitH ∨ layout = .splitV)) := by
  unfold splitOf documentedSplit
  rw [asF32_of_lt hm, asF32_of_lt hw]
  rcases lt_trichotomy w (2 * m) with hlt | heq | hgt
  · cases layout <;> simp [hlt, hlt.le, hlt.ne, hlt.not_ge, hlt.not_gt]
  · cases layout <;> simp [heq]
  · cases layout <;> simp [hgt, hgt.le, hgt.ne', hgt.not_ge, hgt.not_gt]

/-! ## The windows of a tree with distinct ids -/

section distinct

variable {tree : Node} {resToMinWidth : Int → Option Int}

theorem mem_children_of_mem_nodes {n c : Node} (h : c ∈ n.nodes) : c ∈ n.children :=
  mem_nodes_append.mp (List.mem_append_left _ h)

theorem output_mem {o : Node} (ho : o ∈ outputs tree) : o ∈ tree.children :=
  mem_children_of_mem_nodes ((List.takeWhile_sublist _).subset ho)

theorem container_mem {o p w : Node} (h : Tiled tree o p w) : p ∈ tree.preorder :=
  mem_preorder_of_mem_children (output_mem h.output) h.container

theorem window_mem {o p w : Node} (h : Tiled tree o p w) : w ∈ p.preorder :=
  mem_preorder_of_mem_children (mem_children_of_mem_nodes h.child) (mem_preorder_self w)

/-- The id of a window says where it is tiled. -/
theorem tiled_unique (hd : DistinctIds tree) {o p w o' p' w' : Node} (h : Tiled tree o p w)
    (h' : Tiled tree o' p' w') (hid : w.id = w'.id) : o = o' ∧ p = p' ∧ w = w' := by
  have hw : w = w' := hd.node_eq (mem_preorder_trans (container_mem h) (window_mem h))
    (mem_preorder_trans (container_mem h') (window_mem h')) hid
  subst hw
  have hp : p = p' := (getTree tree hd).parent_unique (container_mem h) (container_mem h')
    (mem_children_of_mem_nodes h.child) (mem_children_of_mem_nodes h'.child)
  subst hp
  exact ⟨hd.child_unique (output_mem h.output) (output_mem h'.output) h.container h'.container,
    rfl, rfl⟩

/-- Lists of different elements have nothing in common. -/
theorem nodup_flatMap_of_unique {α β : Type} {l : List α} {f : α → List β} (hl : l.Nodup)
    (hf : ∀ a ∈ l, (f a).Nodup) (hunique : ∀ a ∈ l, ∀ b ∈ l, ∀ x, x ∈ f a → x ∈ f b → a = b) :
    (l.flatMap f).Nodup := by
  refine List.nodup_flatMap.mpr ⟨hf, (List.nodup_iff_pairwise_ne.mp hl).imp_of_mem ?_⟩
  intro a b ha hb hne x hxa hxb
  exact hne (hunique a ha b hb x hxa hxb)

theorem nodup_children (hd : DistinctIds tree) {n : Node} (hn : n ∈ tree.preorder) :
    n.nodes.Nodup := by
  refine List.Pairwise.imp ?_ (List.pairwise_append.mp (hd.subtree hn).children_disjoint).1
  rintro a b hab rfl
  exact hab a.id (hasId_self a) (hasId_self a)

theorem tiled_of_mem {o p w : Node} (ho : o ∈ outputs tree) (hp : p ∈ containers o)
    (hw : w ∈ tiledWindows p) : Tiled tree o p w := by
  obtain ⟨hpo, hkind⟩ := List.mem_filter.mp hp
  obtain ⟨hwp, hwindow⟩ := List.mem_filter.mp hw
  rw [Node.iter_eq_preorder] at hpo
  exact ⟨ho, hpo, by simpa using hkind, hwp, by simpa using hwindow⟩

/-- The ids of the commands, loop by loop. -/
theorem map_id_commands : (commands resToMinWidth tree).map SplitCommand.id =
    (outputs tree).flatMap fun o => (containers o).flatMap fun p =>
      (tiledWindows p).flatMap fun w =>
        (command? resToMinWidth o p w).toList.map SplitCommand.id := by
  simp only [commands, commandsOn, List.map_flatMap]

/-- A command is about the window it was made for. -/
theorem mem_map_id_command? {o p w : Node} {i : Int}
    (h : i ∈ (command? resToMinWidth o p w).toList.map SplitCommand.id) : i = w.id := by
  obtain ⟨c, hc, rfl⟩ := List.mem_map.mp h
  exact (command?_eq_some.mp (by simpa using hc)).2.1

/-- No window gets two commands. -/
theorem nodup_map_id_commands (resToMinWidth : Int → Option Int) (hd : DistinctIds tree) :
    ((commands resToMinWidth tree).map SplitCommand.id).Nodup := by
  have hwins : ∀ {o p : Node} {i : Int}, i ∈ ((tiledWindows p).flatMap fun w =>
      (command? resToMinWidth o p w).toList.map SplitCommand.id) →
      ∃ w ∈ tiledWindows p, w.id = i := by
    intro o p i hi
    obtain ⟨w, hw, hi⟩ := List.mem_flatMap.mp hi
    exact ⟨w, hw, (mem_map_id_command? hi).symm⟩
  have hcontainers : ∀ {o : Node}, o ∈ outputs tree → ∀ p ∈ containers o, p ∈ tree.preorder := by
    intro o ho p hp
    have hpo := (List.mem_filter.mp hp).1
    rw [Node.iter_eq_preorder] at hpo
    exact mem_preorder_of_mem_children (output_mem ho) hpo
  rw [map_id_commands]
  refine nodup_flatMap_of_unique
    ((nodup_children hd (mem_preorder_self tree)).sublist (List.takeWhile_sublist _)) ?_ ?_
  · -- within one output
    intro o ho
    refine nodup_flatMap_of_unique ?_ ?_ ?_
    · rw [containers, Node.iter_eq_preorder]
      have hdo := hd.subtree (mem_preorder_of_mem_children (output_mem ho) (mem_preorder_self o))
      exact (List.Nodup.of_map Node.id hdo).filter _
    · intro p hp
      refine nodup_flatMap_of_unique ((nodup_children hd (hcontainers ho p hp)).filter _) ?_ ?_
      · intro w _
        cases command? resToMinWidth o p w <;> simp
      · intro w hw w' hw' i hi hi'
        exact (tiled_unique hd (tiled_of_mem ho hp hw) (tiled_of_mem ho hp hw')
          ((mem_map_id_command? hi).symm.trans (mem_map_id_command? hi'))).2.2
    · intro p hp p' hp' i hi hi'
      obtain ⟨w, hw, rfl⟩ := hwins hi
      obtain ⟨w', hw', hid⟩ := hwins hi'
      exact (tiled_unique hd (tiled_of_mem ho hp hw) (tiled_of_mem ho hp' hw') hid.symm).2.1
  · -- across outputs
    intro o ho o' ho' i hi hi'
    obtain ⟨p, hp, hi⟩ := List.mem_flatMap.mp hi
    obtain ⟨p', hp', hi'⟩ := List.mem_flatMap.mp hi'
    obtain ⟨w, hw, rfl⟩ := hwins hi
    obtain ⟨w', hw', hid⟩ := hwins hi'
    exact (tiled_unique hd (tiled_of_mem ho hp hw) (tiled_of_mem ho' hp' hw') hid.symm).1

/-- With distinct keys a key picks out one element. -/
theorem filter_key {α κ : Type} [DecidableEq κ] {key : α → κ} {l : List α}
    (hl : (l.map key).Nodup) {a : α} (ha : a ∈ l) : l.filter (fun b => key b == key a) = [a] := by
  induction l with
  | nil => simp at ha
  | cons b l ih =>
      obtain ⟨hb, hl⟩ := List.nodup_cons.mp hl
      rcases List.mem_cons.mp ha with rfl | ha
      · rw [List.filter_cons_of_pos (by simp)]
        refine congrArg _ (List.filter_eq_nil_iff.mpr ?_)
        intro c hc heq
        exact hb (List.mem_map.mpr ⟨c, hc, by simpa using heq⟩)
      · have hne : key b ≠ key a := fun heq => hb (heq ▸ List.mem_map_of_mem ha)
        rw [List.filter_cons_of_neg (by simpa using hne), ih hl ha]

/-- The commands for a window are what is decided for it. -/
theorem filter_commands (hd : DistinctIds tree) {o p w : Node} (h : Tiled tree o p w) :
    (commands resToMinWidth tree).filter (fun c => c.id == w.id) =
      (command? resToMinWidth o p w).toList := by
  have honly : ∀ c ∈ commands resToMinWidth tree, c.id = w.id →
      command? resToMinWidth o p w = some c := by
    intro c hc hid
    obtain ⟨o', p', w', h', hc'⟩ := mem_commands.mp hc
    have hw' := (command?_eq_some.mp hc').2.1
    obtain ⟨rfl, rfl, rfl⟩ := tiled_unique hd h h' (hid.symm.trans hw')
    exact hc'
  cases hc : command? resToMinWidth o p w with
  | none =>
      apply List.filter_eq_nil_iff.mpr
      intro c hmem hid
      rw [honly c hmem (by simpa using hid)] at hc
      simp at hc
  | some c =>
      have hmem : c ∈ commands resToMinWidth tree := mem_commands.mpr ⟨o, p, w, h, hc⟩
      have hid := (command?_eq_some.mp hc).2.1
      rw [← hid]
      exact filter_key (nodup_map_id_commands resToMinWidth hd) hmem

end distinct

/-! ## The documentation -/

/-- `auto_tile` sends, window by window, what `command?` says. That is what the
README says exactly for the windows whose half is not the minimum width itself,
the containers that are skipped for their name apart. -/
theorem autoTile_documented (tree : Node) (resToMinWidth : Int → Option Int)
    (houtputs : ∀ o ∈ tree.nodes, o.props.nodeType = .output)
    (hwidth : ∀ n ∈ tree.preorder, n.width.natAbs < 16777216)
    (hmin : ∀ r m, resToMinWidth r = some m → m.natAbs < 16777216) :
    (∀ (σ : Type) (P : Peer σ SplitCommand SwayError) (s : Session σ SplitCommand),
      ∃ t, autoTile P (some tree) resToMinWidth s = (.ok (), t) ∧
        t.sent = s.sent ++ commands resToMinWidth tree) ∧
    (commands resToMinWidth tree = tree.nodes.flatMap fun o => (containers o).flatMap fun p =>
      (tiledWindows p).flatMap fun w => (command? resToMinWidth o p w).toList) ∧
    (∀ o p w, Tiled tree o p w → resToMinWidth o.width = none →
      command? resToMinWidth o p w = none) ∧
    (∀ o p w m, Tiled tree o p w → resToMinWidth o.width = some m →
      (command? resToMinWidth o p w =
          (documentedSplit p.layout m w.width).map (fun split => ⟨w.id, split⟩) ↔
        (p.isScratchpad = false → ¬ (w.width = 2 * m ∧
          (p.layout = .splitH ∨ p.layout = .splitV))) ∧
        (p.isScratchpad = true → documentedSplit p.layout m w.width = none))) ∧
    (DistinctIds tree → ∀ o p w, Tiled tree o p w →
      (commands resToMinWidth tree).filter (fun c => c.id == w.id) =
        (command? resToMinWidth o p w).toList) := by
  refine ⟨?_, ?_, ?_, ?_, fun hd o p w h => filter_commands hd h⟩
  · -- All children of the root being outputs, no error ends the loop.
    intro σ P s
    have hok : outcome tree = .ok () := by
      have hnil : (tree.nodes.dropWhile fun o => o.props.nodeType == .output) = [] :=
        List.dropWhile_eq_nil_iff.mpr fun o ho => by simpa using houtputs o ho
      rw [outcome, hnil]
    exact ⟨_, hok ▸ emits_autoTile P tree resToMinWidth s, Session.sent_after P s _⟩
  · have hall : outputs tree = tree.nodes :=
      List.takeWhile_eq_self_iff.mpr fun o ho => by simpa using houtputs o ho
    rw [commands, hall]
    rfl
  · intro o p w _ hnone
    simp [command?, hnone]
  · intro o p w m h hm
    have hw := hwidth w (mem_preorder_trans (container_mem h) (window_mem h))
    rw [command?, hm, Option.bind_some]
    cases hs : p.isScratchpad with
    | true => simp [eq_comm]
    | false =>
        have hinj : Function.Injective fun split => (⟨w.id, split⟩ : SplitCommand) :=
          fun a b hab => congrArg SplitCommand.split hab
        rw [if_neg Bool.false_ne_true, (Option.map_injective hinj).eq_iff,
          splitOf_eq_documentedSplit (hmin _ _ hm) hw]
        simp

/-- One window on an output that is 1600 wide. -/
def oneWindow (layout : NodeLayout) (width : Int) : Node :=
  .mk ⟨{ id := 930, nodeType := .root }, rfl⟩
    [.mk ⟨{ id := 931, nodeType := .output, width := 1600 }, rfl⟩
      [.mk ⟨{ id := 932, nodeType := .workspace, layout := layout }, rfl⟩
        [.mk ⟨{ id := 933, nodeType := .con, pid := some 730, width := width }, rfl⟩ [] []] []]
      []] []

/-- The README's example: at least 780 on an output that is 1600 wide. -/
def readmeWidths (width : Int) : Option Int := if width = 1600 then some 780 else none

/-- A window narrow enough to be split the other way. -/
theorem autoTile_documented_oneWindow :
    (commands readmeWidths (oneWindow .splitH 800)).filter (fun c => c.id == 933) =
      [⟨933, .splitv⟩] := by
  have h := autoTile_documented (oneWindow .splitH 800) readmeWidths (by decide) (by decide)
    (fun r m hm => by
      unfold readmeWidths at hm
      split at hm
      · obtain rfl := Option.some.inj hm
        decide
      · simp at hm)
  exact h.2.2.2.2 (by decide) _ _ _
    ⟨List.mem_cons_self, mem_preorder_of_mem_children List.mem_cons_self (mem_preorder_self _),
      .inl rfl, List.mem_cons_self, rfl⟩

/-- Half of the width is the minimum: the README asks for nothing in a horizontal
container and for `splith` in a vertical one. -/
theorem autoTile_boundary :
    (∀ (σ : Type) (P : Peer σ SplitCommand SwayError) (s : Session σ SplitCommand),
      (autoTile P (some (oneWindow .splitH 1560)) readmeWidths s).2.sent =
        s.sent ++ [⟨933, .splitv⟩]) ∧
    documentedSplit .splitH 780 1560 = none ∧
    (∀ (σ : Type) (P : Peer σ SplitCommand SwayError) (s : Session σ SplitCommand),
      (autoTile P (some (oneWindow .splitV 1560)) readmeWidths s).2.sent = s.sent) ∧
    documentedSplit .splitV 780 1560 = some .splith := by
  have hh : commands readmeWidths (oneWindow .splitH 1560) = [⟨933, .splitv⟩] := by
    decide +kernel
  have hv : commands readmeWidths (oneWindow .splitV 1560) = [] := by decide +kernel
  refine ⟨?_, by decide, ?_, by decide⟩
  · intro σ P s
    rw [sent_autoTile, hh]
  · intro σ P s
    rw [sent_autoTile, hv, List.append_nil]

/-! ## The scratchpad -/

/-- The scratchpad's workspace or output. -/
def IsScratchpadNode (q : Node) : Prop :=
  q.isScratchpad = true ∧ (q.getType = .workspace ∨ q.getType = .output)

theorem splitOf_eq_none {layout : NodeLayout} {m w : Int} :
    splitOf layout m w = none ↔ ¬ (layout = .splitH ∧ asF32 w ≤ 2 * asF32 m) ∧
      ¬ (layout = .splitV ∧ asF32 w > 2 * asF32 m) := by
  unfold splitOf
  split
  · simp_all
  · split <;> simp_all

/-- No command is sent for a window of the scratchpad exactly if none of them is
in a container, other than the scratchpad itself, that would be split. -/
theorem scratchpad_iff (tree : Node) (hd : DistinctIds tree) (resToMinWidth : Int → Option Int) :
    (∀ (σ : Type) (P : Peer σ SplitCommand SwayError) (x : σ),
      ∀ c ∈ (autoTile P (some tree) resToMinWidth ⟨x, []⟩).2.sent,
        ∀ q ∈ tree.preorder, IsScratchpadNode q →
          ∀ w ∈ q.preorder, w.getType = .window → c.id ≠ w.id) ↔
    ∀ o p w m, Tiled tree o p w → resToMinWidth o.width = some m →
      (∃ q ∈ tree.preorder, IsScratchpadNode q ∧ w ∈ q.preorder) → p.isScratchpad = false →
        ¬ (p.layout = .splitH ∧ asF32 w.width ≤ 2 * asF32 m) ∧
        ¬ (p.layout = .splitV ∧ asF32 w.width > 2 * asF32 m) := by
  have hsent : ∀ (σ : Type) (P : Peer σ SplitCommand SwayError) (x : σ),
      (autoTile P (some tree) resToMinWidth ⟨x, []⟩).2.sent = commands resToMinWidth tree := by
    intro σ P x
    rw [sent_autoTile, List.nil_append]
  constructor
  · intro h o p w m htiled hm hin hs
    obtain ⟨q, hq, hscratch, hwq⟩ := hin
    rw [← splitOf_eq_none]
    by_contra hsome
    obtain ⟨split, hsplit⟩ := Option.ne_none_iff_exists'.mp hsome
    have hc : command? resToMinWidth o p w = some ⟨w.id, split⟩ :=
      command?_eq_some.mpr ⟨hs, rfl, m, hm, hsplit⟩
    -- any peer will do, the commands are the same
    refine h Unit ⟨fun _ _ => (.ok (), ())⟩ () ⟨w.id, split⟩ ?_ q hq hscratch w hwq
      htiled.window rfl
    rw [hsent]
    exact mem_commands.mpr ⟨o, p, w, htiled, hc⟩
  · intro h σ P x c hc q hq hscratch w hwq hwin hid
    rw [hsent] at hc
    obtain ⟨o, p, w', htiled, hc⟩ := mem_commands.mp hc
    obtain ⟨hs, hid', m, hm, hsplit⟩ := command?_eq_some.mp hc
    have hw : w = w' := hd.node_eq (mem_preorder_trans hq hwq)
      (mem_preorder_trans (container_mem htiled) (window_mem htiled)) (hid.symm.trans hid')
    subst hw
    have hnone := splitOf_eq_none.mpr (h o p w m htiled hm ⟨q, hq, hscratch, hwq⟩ hs)
    rw [hnone] at hsplit
    simp at hsplit

/-- A floating container in the scratchpad, with a window in a container inside
it. -/
def scratchpadContainer (width : Int) : Node :=
  .mk ⟨{ id := 940, nodeType := .root }, rfl⟩
    [.mk ⟨{ id := 941, nodeType := .output, name := some "__i3", width := 1920 }, rfl⟩
      [.mk ⟨{ id := 942, nodeType := .workspace, name := some "__i3_scratch" }, rfl⟩ []
        [.mk ⟨{ id := 943, nodeType := .floatingCon }, rfl⟩
          [.mk ⟨{ id := 944, nodeType := .con, layout := .splitH }, rfl⟩
            [.mk ⟨{ id := 945, nodeType := .con, pid := some 740, width := width }, rfl⟩ [] []]
            []] []]] []] []

def wideOutput (width : Int) : Option Int := if width = 1920 then some 800 else none

/-- A window that is wide enough is left alone, for its width. -/
theorem scratchpad_iff_wide : DistinctIds (scratchpadContainer 1800) ∧
    ∀ o p w m, Tiled (scratchpadContainer 1800) o p w → wideOutput o.width = some m →
      (∃ q ∈ (scratchpadContainer 1800).preorder, IsScratchpadNode q ∧ w ∈ q.preorder) →
      p.isScratchpad = false →
        ¬ (p.layout = .splitH ∧ asF32 w.width ≤ 2 * asF32 m) ∧
        ¬ (p.layout = .splitV ∧ asF32 w.width > 2 * asF32 m) := by
  have hd : DistinctIds (scratchpadContainer 1800) := by decide
  have hnone : commands wideOutput (scratchpadContainer 1800) = [] := by decide +kernel
  refine ⟨hd, (scratchpad_iff (scratchpadContainer 1800) hd wideOutput).mp ?_⟩
  intro σ P x c hc
  rw [sent_autoTile, hnone] at hc
  simp at hc

/-- A window of the scratchpad is split. -/
theorem scratchpad_split :
    DistinctIds (scratchpadContainer 900) ∧
    (∃ q ∈ (scratchpadContainer 900).preorder, IsScratchpadNode q ∧
      ∃ w ∈ q.preorder, w.getType = .window ∧ w.id = 945) ∧
    ∀ (σ : Type) (P : Peer σ SplitCommand SwayError) (x : σ),
      (autoTile P (some (scratchpadContainer 900)) wideOutput ⟨x, []⟩).2.sent =
        [⟨945, .splitv⟩] := by
  have hsent : commands wideOutput (scratchpadContainer 900) = [⟨945, .splitv⟩] := by
    decide +kernel
  refine ⟨by decide, ?_, ?_⟩
  · unfold IsScratchpadNode
    decide
  · intro σ P x
    rw [sent_autoTile, hsent, List.nil_append]

end Swayr.Theorems.AutoTile
