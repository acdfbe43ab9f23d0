import Swayr.Layout.Splitting
import Swayr.Theorems.AutoTile

/-!
# Auto-tiling comes to rest

All decisions are made from one snapshot, and each split changes the tree the
next command meets. But a split only changes the layout above its own window, to
one for which the opposite decision would have to be made, and leaves the other
windows where they were.
-/

namespace Swayr.Theorems.AutoTileStable

open Ipc Swayr.Tree Kit Layout Theorems.AutoTile

/-- What is assumed of sway: `split` on a tiled window changes the tree as
`Splits` says, a new container being one for `get_type` and having a new id. -/
def SplitsWindows (P : Peer Node SplitCommand SwayError) : Prop :=
  ∀ (tree : Node) (cmd : SplitCommand), TiledIn (fun _ => True) cmd.id tree →
    ∃ c : NodeProps, c.getType? = some .container ∧ c.layout = cmd.split.layout ∧
      ¬ HasId tree c.id ∧ Splits cmd.id cmd.split c tree (P.exec cmd tree).2

/-! ## What a decision depends on -/

/-- A tiled window, as far as it matters to `auto_tile`. -/
structure Seat where
  layout : NodeLayout
  skipped : Bool
  id : Int
  width : Int

/-- The workspace or container `p` has the window as a tiled child. -/
def HasSeat (st : Seat) (p : Node) : Prop :=
  (p.getType = .workspace ∨ p.getType = .container) ∧ p.layout = st.layout ∧
    p.isScratchpad = st.skipped ∧
    ∃ w ∈ p.nodes, w.getType = .window ∧ w.id = st.id ∧ w.width = st.width

/-- The window is on an output of width `r`. -/
def Job (tree : Node) (r : Int) (st : Seat) : Prop :=
  ∃ o ∈ outputs tree, o.width = r ∧ Somewhere (HasSeat st) o

/-- Some window with this id and width is on an output of width `r`. -/
def PlacedAt (tree : Node) (r id width : Int) : Prop :=
  ∃ o ∈ outputs tree, o.width = r ∧
    Somewhere (fun x => x.getType = .window ∧ x.id = id ∧ x.width = width) o

variable {resToMinWidth : Int → Option Int}

/-- The commands are the splits that seats ask for. -/
theorem mem_commands_iff_job {tree : Node} {cmd : SplitCommand} :
    cmd ∈ commands resToMinWidth tree ↔ ∃ r st, Job tree r st ∧ st.skipped = false ∧
      cmd.id = st.id ∧ ∃ m, resToMinWidth r = some m ∧
        splitOf st.layout m st.width = some cmd.split := by
  rw [mem_commands]
  constructor
  · rintro ⟨o, p, w, h, hc⟩
    obtain ⟨hs, hid, hm⟩ := command?_eq_some.mp hc
    exact ⟨o.width, ⟨p.layout, p.isScratchpad, w.id, w.width⟩, ⟨o, h.output, rfl, p, h.container,
      h.kind, rfl, rfl, w, h.child, h.window, rfl, rfl⟩, hs, hid, hm⟩
  · rintro ⟨r, st, ⟨o, ho, rfl, p, hp, hkind, hl, hs, w, hw, hwindow, hid, hwidth⟩, hsk, hcid, hm⟩
    refine ⟨o, p, w, ⟨ho, hp, hkind, hw, hwindow⟩, command?_eq_some.mpr ⟨hs.trans hsk,
      hcid.trans hid.symm, ?_⟩⟩
    rwa [hl, hwidth]

theorem placedAt_of_job {tree : Node} {r : Int} {st : Seat} (h : Job tree r st) :
    PlacedAt tree r st.id st.width := by
  obtain ⟨o, ho, hr, p, hp, -, -, -, w, hw, hwindow, hid, hwidth⟩ := h
  exact ⟨o, ho, hr, w, mem_preorder_trans hp (mem_preorder_of_mem_children
    (mem_children_of_mem_nodes hw) (mem_preorder_self w)), hwindow, hid, hwidth⟩

/-- A window is in one place. -/
theorem placedAt_unique {tree : Node} (hd : DistinctIds tree) {r r' id width width' : Int}
    (h : PlacedAt tree r id width) (h' : PlacedAt tree r' id width') :
    r = r' ∧ width = width' := by
  obtain ⟨o, ho, rfl, x, hx, -, hid, rfl⟩ := h
  obtain ⟨o', ho', rfl, x', hx', -, hid', rfl⟩ := h'
  obtain rfl : x = x' := hd.node_eq (mem_preorder_of_mem_children (output_mem ho) hx)
    (mem_preorder_of_mem_children (output_mem ho') hx') (hid.trans hid'.symm)
  obtain rfl := hd.child_unique (output_mem ho) (output_mem ho') hx hx'
  exact ⟨rfl, rfl⟩

/-- After a split the opposite decision is not made. -/
theorem splitOf_after {layout : NodeLayout} {m w : Int} {split : Split}
    (h : splitOf layout m w = some split) : splitOf split.layout m w = none := by
  rw [splitOf_eq_none]
  unfold splitOf at h
  split at h
  · rename_i hh
    obtain rfl := Option.some.inj h
    exact ⟨fun hc => by simp [Split.layout] at hc, fun hc => absurd hh.2 (not_le.mpr hc.2)⟩
  · split at h
    · rename_i hv
      obtain rfl := Option.some.inj h
      exact ⟨fun hc => absurd hv.2 (not_lt.mpr hc.2), fun hc => by simp [Split.layout] at hc⟩
    · simp at h

/-! ## One split -/

section step

variable {i : Int} {split : Split} {c : NodeProps} {n n' : Node}

theorem getType_new (hc : c.getType? = some .container) (ns fs : List Node) :
    (Node.mk c ns fs).getType = .container := by
  have h : some (Node.mk c ns fs).getType = c.getType? := Option.some_get _
  exact Option.some.inj (h.trans hc)

/-- The other windows stay where they are. -/
theorem somewhere_hasSeat (h : Splits i split c n n') (hc : c.getType? = some .container)
    {st : Seat} (hne : st.id ≠ i) (hn' : Somewhere (HasSeat st) n') :
    Somewhere (HasSeat st) n := by
  refine h.somewhere ?_ ?_ ?_ ?_ ?_ hn'
  · -- the only child changes its container's layout
    rintro p w fs hw ⟨-, -, -, x, hx, -, hid, -⟩
    rw [List.mem_singleton.mp hx] at hid
    exact absurd (hid.symm.trans hw) hne
  · -- the window is wrapped, and the new container is no window
    rintro p before w after fs hw ⟨hkind, hl, hs, x, hx, hwindow, hst⟩
    refine ⟨hkind, hl, hs, x, ?_, hwindow, hst⟩
    rcases List.mem_append.mp hx with hx | hx
    · exact List.mem_append_left _ hx
    rcases List.mem_cons.mp hx with rfl | hx
    · rw [getType_new hc] at hwindow
      simp at hwindow
    · exact List.mem_append_right _ (List.mem_cons_of_mem _ hx)
  · rintro w hw ⟨-, -, -, x, hx, -, hid, -⟩
    rw [List.mem_singleton.mp hx] at hid
    exact hne (hid.symm.trans hw)
  · -- a child with the same top
    rintro p before y y' after fs hsame ⟨hkind, hl, hs, x, hx, hwindow, hid, hwidth⟩
    refine ⟨hkind, hl, hs, ?_⟩
    rcases List.mem_append.mp hx with hx | hx
    · exact ⟨x, List.mem_append_left _ hx, hwindow, hid, hwidth⟩
    rcases List.mem_cons.mp hx with rfl | hx
    · exact ⟨y, List.mem_append_right _ List.mem_cons_self, hsame.getType ▸ hwindow,
        hsame.id ▸ hid, hsame.width ▸ hwidth⟩
    · exact ⟨x, List.mem_append_right _ (List.mem_cons_of_mem _ hx), hwindow, hid, hwidth⟩
  · rintro p ns fs fs' hhere
    exact hhere

/-- A split adds no window. -/
theorem somewhere_window (h : Splits i split c n n') (hc : c.getType? = some .container)
    {id width : Int}
    (hn' : Somewhere (fun x => x.getType = .window ∧ x.id = id ∧ x.width = width) n') :
    Somewhere (fun x => x.getType = .window ∧ x.id = id ∧ x.width = width) n := by
  refine h.somewhere ?_ ?_ ?_ ?_ ?_ hn'
  · rintro p w fs - ⟨hwindow, hid⟩
    rw [getType_withLayout p split [w] [w] fs fs] at hwindow
    exact ⟨hwindow, hid⟩
  · rintro p before w after fs - hhere
    exact hhere
  · rintro w - ⟨hwindow, -⟩
    rw [getType_new hc] at hwindow
    simp at hwindow
  · rintro p before y y' after fs - hhere
    exact hhere
  · rintro p ns fs fs' hhere
    exact hhere

/-- A replaced element lets pass at most what the old one did. -/
theorem mem_takeWhile_replace {α : Type} {q : α → Bool} {l r : List α} {a a' x : α}
    (h : q a' = true → q a = true) (hx : x ∈ (l ++ a' :: r).takeWhile q) :
    x ∈ (l ++ a :: r).takeWhile q ∨ x = a' ∧ a ∈ (l ++ a :: r).takeWhile q := by
  induction l with
  | nil =>
      cases hq : q a' with
      | false => simp [hq] at hx
      | true =>
          simp only [List.nil_append, List.takeWhile_cons, hq, h hq, if_true, List.mem_cons] at hx ⊢
          rcases hx with rfl | hx
          · exact .inr ⟨rfl, by simp⟩
          · exact .inl (.inr hx)
  | cons b l ih =>
      cases hq : q b with
      | false => simp [hq] at hx
      | true =>
          simp only [List.cons_append, List.takeWhile_cons, hq, if_true, List.mem_cons] at hx ⊢
          rcases hx with rfl | hx
          · exact .inl (.inl rfl)
          · exact (ih hx).imp .inr (And.imp_right .inr)

/-- The outputs that are reached afterwards were reached before, and at most one
has changed. -/
theorem outputs_of_splits (h : Splits i split c n n') (hc : c.getType? = some .container)
    {o' : Node} (ho' : o' ∈ outputs n') : ∃ o ∈ outputs n, o = o' ∨ Splits i split c o o' := by
  cases h with
  | alone hw => exact ⟨o', ho', .inl rfl⟩
  | @wrap p before after fs w hw =>
      have hnew : ((Node.mk c [w] []).props.nodeType == .output) = false := by
        cases hty : c.nodeType with
        | output => simp [NodeInfo.getType?, hty] at hc
        | root | workspace | con | floatingCon | dockarea =>
            simp [Node.props, hty]
      rcases mem_takeWhile_replace (a := w) (fun hq => by simp [hnew] at hq) ho' with ho | ⟨rfl, -⟩
      · exact ⟨o', ho, .inl rfl⟩
      · have := List.mem_takeWhile_imp ho'
        simp [hnew] at this
  | @nodes p before after fs m m' h =>
      have hq : (m'.props.nodeType == .output) = true → (m.props.nodeType == .output) = true := by
        rw [h.sameTop.nodeType]
        exact fun hq => hq
      rcases mem_takeWhile_replace hq ho' with ho | ⟨rfl, ho⟩
      · exact ⟨o', ho, .inl rfl⟩
      · exact ⟨m, ho, .inr h⟩
  | floating h => exact ⟨o', ho', .inl rfl⟩

/-- A split leaves the other windows' seats as they were. -/
theorem job_of_splits (h : Splits i split c n n') (hc : c.getType? = some .container)
    {r : Int} {st : Seat} (hne : st.id ≠ i) (hjob : Job n' r st) : Job n r st := by
  obtain ⟨o', ho', hr, hseat⟩ := hjob
  obtain ⟨o, ho, rfl | hsplit⟩ := outputs_of_splits h hc ho'
  · exact ⟨o, ho, hr, hseat⟩
  · exact ⟨o, ho, hsplit.sameTop.width ▸ hr, somewhere_hasSeat hsplit hc hne hseat⟩

theorem placedAt_of_splits (h : Splits i split c n n') (hc : c.getType? = some .container)
    {r id width : Int} (hplaced : PlacedAt n' r id width) : PlacedAt n r id width := by
  obtain ⟨o', ho', hr, hwin⟩ := hplaced
  obtain ⟨o, ho, rfl | hsplit⟩ := outputs_of_splits h hc ho'
  · exact ⟨o, ho, hr, hwin⟩
  · exact ⟨o, ho, hsplit.sameTop.width ▸ hr, somewhere_window hsplit hc hwin⟩

/-- The window that was split has the new layout above it. -/
theorem layout_of_splits (h : Splits i split c n n') (hc : c.layout = split.layout)
    (hd : DistinctIds n') {r : Int} {st : Seat} (hid : st.id = i) (hjob : Job n' r st) :
    st.layout = split.layout := by
  obtain ⟨o, ho, -, p, hp, -, hl, -, w, hw, -, hwid, -⟩ := hjob
  obtain ⟨q, hq, hlayout, w', hw', hw'id⟩ := h.tiledIn_self hc
  have hpn : p ∈ n'.preorder := mem_preorder_of_mem_children (output_mem ho) hp
  -- one node has this id, and one node is its parent
  have hmem : ∀ {p w : Node}, p ∈ n'.preorder → w ∈ p.nodes → w ∈ n'.preorder := by
    intro p w hp hw
    exact mem_preorder_trans hp
      (mem_preorder_of_mem_children (mem_children_of_mem_nodes hw) (mem_preorder_self w))
  obtain rfl : w = w' := hd.node_eq (hmem hpn hw) (hmem hq hw') ((hwid.trans hid).trans hw'id.symm)
  obtain rfl : p = q := (getTree n' hd).parent_unique hpn hq (mem_children_of_mem_nodes hw)
    (mem_children_of_mem_nodes hw')
  exact hl.symm.trans hlayout

end step

/-! ## All of them -/

/-- The tree after the commands `done`, compared with the snapshot. -/
structure Progress (tree : Node) (done : List SplitCommand) (now : Node) : Prop where
  distinct : DistinctIds now
  tiled : ∀ j, TiledIn (fun _ => True) j tree → TiledIn (fun _ => True) j now
  placed : ∀ r id width, PlacedAt now r id width → PlacedAt tree r id width
  jobs : ∀ r st, Job now r st → (Job tree r st ∧ ∀ cmd ∈ done, cmd.id ≠ st.id) ∨
    ∃ cmd ∈ done, cmd.id = st.id ∧ st.layout = cmd.split.layout

variable {P : Peer Node SplitCommand SwayError} {tree now : Node} {done : List SplitCommand}

/-- One more command has been carried out. -/
theorem Progress.step (hP : SplitsWindows P) (h : Progress tree done now) {cmd : SplitCommand}
    (htiled : TiledIn (fun _ => True) cmd.id tree) :
    Progress tree (done ++ [cmd]) (P.exec cmd now).2 := by
  obtain ⟨c, hc, hl, hfresh, hsplit⟩ := hP now cmd (h.tiled _ htiled)
  have hdistinct := hsplit.distinctIds h.distinct hfresh
  refine ⟨hdistinct, fun j hj => hsplit.tiledIn (h.tiled j hj),
    fun r id width hplaced => h.placed _ _ _ (placedAt_of_splits hsplit hc hplaced), ?_⟩
  intro r st hjob
  by_cases hid : st.id = cmd.id
  · exact .inr ⟨cmd, by simp, hid.symm, layout_of_splits hsplit hl hdistinct hid hjob⟩
  · rcases h.jobs r st (job_of_splits hsplit hc hid hjob) with ⟨hold, hnone⟩ | ⟨cmd', hcmd', hst⟩
    · refine .inl ⟨hold, fun cmd' hcmd' => ?_⟩
      rcases List.mem_append.mp hcmd' with hcmd' | hcmd'
      · exact hnone cmd' hcmd'
      · rw [List.mem_singleton.mp hcmd']
        exact Ne.symm hid
    · exact .inr ⟨cmd', List.mem_append_left _ hcmd', hst⟩

/-- The run: every command meets a tree in which its window is still tiled. -/
theorem Progress.run (hP : SplitsWindows P) {cmds : List SplitCommand}
    (htiled : ∀ cmd ∈ cmds, TiledIn (fun _ => True) cmd.id tree) {s : Session Node SplitCommand}
    (h : Progress tree done s.state) : Progress tree (done ++ cmds) (s.after P cmds).state := by
  induction cmds generalizing done s with
  | nil =>
      rw [List.append_nil]
      exact h
  | cons cmd cmds ih =>
      have hstep := h.step hP (htiled cmd List.mem_cons_self)
      have hrest := ih (fun cmd' hcmd' => htiled cmd' (List.mem_cons_of_mem cmd hcmd'))
        (s := ⟨(P.exec cmd s.state).2, s.sent ++ [cmd]⟩) hstep
      rw [List.append_assoc] at hrest
      exact hrest

theorem Progress.start (hd : DistinctIds tree) : Progress tree [] tree :=
  ⟨hd, fun _ h => h, fun _ _ _ h => h, fun _ _ h => .inl ⟨h, by simp⟩⟩

theorem tiledIn_of_mem_commands {cmd : SplitCommand} (h : cmd ∈ commands resToMinWidth tree) :
    TiledIn (fun _ => True) cmd.id tree := by
  obtain ⟨o, p, w, ht, hc⟩ := mem_commands.mp h
  exact ⟨p, container_mem ht, trivial, w, ht.child, (command?_eq_some.mp hc).2.1.symm⟩

/-- Where all commands have been carried out nothing is left to decide. -/
theorem commands_of_progress (hd : DistinctIds tree)
    (h : Progress tree (commands resToMinWidth tree) now) : commands resToMinWidth now = [] := by
  refine List.eq_nil_iff_forall_not_mem.mpr fun cmd hcmd => ?_
  obtain ⟨r, st, hjob, hskipped, hid, m, hm, hsplit⟩ := mem_commands_iff_job.mp hcmd
  rcases h.jobs r st hjob with ⟨hold, hnone⟩ | ⟨cmd', hcmd', hid', hlayout⟩
  · exact hnone cmd (mem_commands_iff_job.mpr ⟨r, st, hold, hskipped, hid, m, hm, hsplit⟩) hid
  · obtain ⟨r', st', hjob', -, hst', m', hm', hsplit'⟩ := mem_commands_iff_job.mp hcmd'
    have hplaced := placedAt_of_job hjob'
    rw [← hst', hid'] at hplaced
    obtain ⟨rfl, hwidth⟩ := placedAt_unique hd (h.placed _ _ _ (placedAt_of_job hjob)) hplaced
    obtain rfl : m = m' := Option.some.inj (hm.symm.trans hm')
    have hafter := splitOf_after hsplit'
    rw [← hlayout, ← hwidth, hsplit] at hafter
    simp at hafter

/-- A second run of `auto_tile`, on the tree the first one has left, sends
nothing. -/
theorem autoTile_stable (P : Peer Node SplitCommand SwayError) (hP : SplitsWindows P)
    (tree : Node) (hd : DistinctIds tree) (resToMinWidth : Int → Option Int) :
    ∀ (σ : Type) (Q : Peer σ SplitCommand SwayError) (s : Session σ SplitCommand),
      (autoTile Q (some (autoTile P (some tree) resToMinWidth ⟨tree, []⟩).2.state)
        resToMinWidth s).2.sent = s.sent := by
  intro σ Q s
  have hrun : Progress tree ([] ++ commands resToMinWidth tree)
      ((⟨tree, []⟩ : Session Node SplitCommand).after P (commands resToMinWidth tree)).state :=
    Progress.run hP (fun cmd hcmd => tiledIn_of_mem_commands hcmd) (Progress.start hd)
  rw [emits_autoTile P tree resToMinWidth, sent_autoTile, commands_of_progress hd hrun,
    List.append_nil]

/-! ## A peer that splits -/

/-- The properties of a new container. -/
def newContainer (i : Int) (split : Split) : NodeProps where
  id := i
  nodeType := .con
  layout := split.layout
  known := by cases split <;> rfl

theorem exists_fresh (n : Node) : ∃ i, ¬ HasId n i := by
  obtain ⟨i, hi⟩ := Infinite.exists_notMem_finset (n.preorder.map Node.id).toFinset
  refine ⟨i, fun h => hi ?_⟩
  obtain ⟨m, hm, rfl⟩ := h
  simpa using ⟨m, hm, rfl⟩

/-- There is a sway that splits as it is asked. -/
theorem exists_splitsWindows : ∃ P : Peer Node SplitCommand SwayError, SplitsWindows P := by
  have hsplit : ∀ (cmd : SplitCommand) (tree : Node), ∃ tree', TiledIn (fun _ => True) cmd.id tree →
      ∃ c : NodeProps, c.getType? = some .container ∧ c.layout = cmd.split.layout ∧
        ¬ HasId tree c.id ∧ Splits cmd.id cmd.split c tree tree' := by
    intro cmd tree
    by_cases h : TiledIn (fun _ => True) cmd.id tree
    · obtain ⟨i, hi⟩ := exists_fresh tree
      obtain ⟨tree', htree'⟩ := exists_splits cmd.split (newContainer i cmd.split) h
      refine ⟨tree', fun _ => ⟨newContainer i cmd.split, ?_, rfl, hi, htree'⟩⟩
      cases cmd.split <;> rfl
    · exact ⟨tree, fun h' => absurd h' h⟩
  choose exec hexec using hsplit
  exact ⟨⟨fun cmd tree => (.ok (), exec cmd tree)⟩, fun tree cmd h => hexec cmd tree h⟩

/-- The first run splits the window, the second one leaves it at that. -/
theorem autoTile_stable_oneWindow : ∃ P : Peer Node SplitCommand SwayError, SplitsWindows P ∧
    (autoTile P (some (oneWindow .splitH 800)) readmeWidths ⟨oneWindow .splitH 800, []⟩).2.sent =
      [⟨933, .splitv⟩] ∧
    (autoTile P (some (autoTile P (some (oneWindow .splitH 800)) readmeWidths
      ⟨oneWindow .splitH 800, []⟩).2.state) readmeWidths ⟨oneWindow .splitH 800, []⟩).2.sent =
      [] := by
  obtain ⟨P, hP⟩ := exists_splitsWindows
  refine ⟨P, hP, ?_, autoTile_stable P hP (oneWindow .splitH 800) (by decide) readmeWidths Node P _⟩
  have hsent : commands readmeWidths (oneWindow .splitH 800) = [⟨933, .splitv⟩] := by
    decide +kernel
  rw [sent_autoTile, hsent, List.nil_append]

end Swayr.Theorems.AutoTileStable
