import Mathlib.Data.List.Induction
import Swayr.Layout.Configured

/-!
# Auto-tiling does what is configured

The daemon splits no window on its own unless the configuration says so, and then
only with the minimal width that is configured for the window's output: the last one
listed, if there are several.
-/

namespace Swayr.Theorems.AutoTileConfigured

open Ipc Kit Cfg Focus Layout

variable {σ : Type} {P : Peer σ SplitCommand SwayError} {layout : Option LayoutConfig}

/-! ## The configuration -/

/-- The last pair for an output's width. -/
def LastPair (pairs : List (Int × Int)) (outputWidth minWidth : Int) : Prop :=
  ∃ front back, pairs = front ++ (outputWidth, minWidth) :: back ∧
    ∀ pair ∈ back, pair.1 ≠ outputWidth

/-- A later pair for the same output width replaces the earlier one. -/
theorem lastPair_of_insertAll {pairs : List (Int × Int)} {outputWidth minWidth : Int}
    (h : LayoutConfig.insertAll pairs outputWidth = some minWidth) :
    LastPair pairs outputWidth minWidth := by
  induction pairs using List.reverseRecOn with
  | nil => cases h
  | append_singleton pairs pair ih =>
      rw [LayoutConfig.insertAll, List.foldl_append, List.foldl_cons, List.foldl_nil] at h
      split at h
      · next hwidth =>
          obtain rfl := Option.some.inj h
          exact ⟨pairs, [], by rw [hwidth], by simp⟩
      · next hwidth =>
          obtain ⟨front, back, rfl, hback⟩ := ih h
          refine ⟨front, back ++ [pair], by simp, ?_⟩
          intro q hq
          rcases List.mem_append.mp hq with hold | hnew
          · exact hback q hold
          · rw [List.mem_singleton.mp hnew]
            exact Ne.symm hwidth

/-- The pairs that count: those of the layout section, or else the default ones. -/
def pairsOf (layout : Option LayoutConfig) : List (Int × Int) :=
  ((layout.bind LayoutConfig.minWindowWidths).or LayoutConfig.default.minWindowWidths).getD []

theorem lastPair_of_map {outputWidth minWidth : Int}
    (h : getLayoutMinWindowWidthsAsMap layout outputWidth = some minWidth) :
    LastPair (pairsOf layout) outputWidth minWidth := by
  apply lastPair_of_insertAll
  unfold getLayoutMinWindowWidthsAsMap at h
  unfold pairsOf
  -- Without pairs of its own the layout has those of the default.
  cases hsection : layout.bind LayoutConfig.minWindowWidths with
  | none =>
      have hmap : layout.bind LayoutConfig.minWindowWidthsAsMap = none := by
        cases layout with
        | none => rfl
        | some l => exact Option.map_eq_none_iff.mpr hsection
      rw [hmap] at h
      exact h
  | some pairs =>
      have hmap : layout.bind LayoutConfig.minWindowWidthsAsMap =
          some (LayoutConfig.insertAll pairs) := by
        cases layout with
        | none => cases hsection
        | some l => exact Option.map_eq_some_iff.mpr ⟨pairs, hsection, rfl⟩
      rw [hmap] at h
      exact h

theorem isLayoutAutoTile_eq_true (h : isLayoutAutoTile layout = true) :
    ∃ l, layout = some l ∧ l.autoTile = some true := by
  cases layout with
  | none => cases h
  | some l =>
      refine ⟨l, rfl, ?_⟩
      unfold isLayoutAutoTile at h
      cases hl : l.autoTile with
      | none => rw [Option.bind_some, hl] at h; cases h
      | some on => rw [Option.bind_some, hl] at h; exact congrArg some h

/-! ## The commands -/

/-- The events after which windows are split. -/
def Tiles : SwayEvent → Prop
  | .window change _ => change = .focus ∨ change = .new ∨ change = .close ∨ change = .move ∨
      change = .floating
  | _ => False

/-- What a split of a window in a tree rests on. -/
def SplitIn (layout : Option LayoutConfig) (tree : Node) (c : SplitCommand) : Prop :=
  (∃ l, layout = some l ∧ l.autoTile = some true) ∧
    ∃ o p w m, Tiled tree o p w ∧ c.id = w.id ∧ p.isScratchpad = false ∧
      LastPair (pairsOf layout) o.width m ∧ splitOf p.layout m w.width = some c.split

/-- With auto-tiling off nothing is sent. -/
theorem sendsOnly_maybeAutoTile {Q : SplitCommand → Prop} {tree : Option Node}
    (hQ : ∀ t, tree = some t → ∀ c, SplitIn layout t c → Q c) :
    SendsOnly Q (fun _ => True) (maybeAutoTile P layout tree) := by
  unfold maybeAutoTile
  split
  · next hon =>
      cases tree with
      | none => exact .pure trivial
      | some t =>
          refine (emits_autoTile P t _).sendsOnly fun c hc => hQ t rfl c ?_
          obtain ⟨o, p, w, htiled, hcommand⟩ := mem_commands.mp hc
          obtain ⟨hscratch, hid, m, hm, hsplit⟩ := command?_eq_some.mp hcommand
          exact ⟨isLayoutAutoTile_eq_true hon, o, p, w, m, htiled, hid, hscratch,
            lastPair_of_map hm, hsplit⟩
  · exact .pure trivial

theorem sendsOnly_tileOps {Q : SplitCommand → Prop} {tree : Option Node} {ops : List MonitorOp}
    (hQ : .maybeAutoTile ∈ ops → ∀ t, tree = some t → ∀ c, SplitIn layout t c → Q c) :
    SendsOnly Q (fun _ => True) (tileOps P layout tree ops) := by
  induction ops with
  | nil => exact .pure trivial
  | cons op ops ih =>
      have hrest := ih fun hmem => hQ (List.mem_cons_of_mem op hmem)
      cases op with
      | maybeAutoTile =>
          exact (sendsOnly_maybeAutoTile (hQ List.mem_cons_self)).bind fun _ _ => hrest
      | ensureId | removeFocusData | chanSend => exact hrest

theorem not_mem_send (fmsg : FocusMessage) : .maybeAutoTile ∉ send fmsg := by
  cases fmsg <;> simp [send]

/-- Only some changes of a window make the monitor tile. -/
theorem tiles_of_handleWindowEvent {change : WindowChange} {container : Int} {n : Nat}
    (h : .maybeAutoTile ∈ (handleWindowEvent change container n).1) :
    Tiles (.window change container) := by
  cases change <;> simp [handleWindowEvent, Tiles] at h ⊢

theorem not_mem_handleWorkspaceEvent {change : WorkspaceChange} {current : Option Int} {n : Nat}
    {ops : List MonitorOp} {b : Bool} (h : handleWorkspaceEvent change current n = some (ops, b)) :
    .maybeAutoTile ∉ ops := by
  have hmap : ∀ f : Int → List MonitorOp, (∀ id, .maybeAutoTile ∉ f id) →
      current.map (fun id => (f id, true)) = some (ops, b) → .maybeAutoTile ∉ ops := by
    rintro f hf hcurrent
    obtain ⟨id, -, hops⟩ := Option.map_eq_some_iff.mp hcurrent
    obtain rfl := (Prod.mk.inj hops).1
    exact hf id
  cases change with
  | init | focus => exact hmap _ (fun id => not_mem_send _) h
  | empty => exact hmap (fun id => [.removeFocusData id]) (by simp) h
  | rename | urgent | move | reload =>
      obtain rfl := (Prod.mk.inj (Option.some.inj h)).1
      simp

/-- Which events make the handlers call `maybe_auto_tile`. -/
theorem tiles_of_monitorEvent {n n' : Nat} {ev : SwayEvent} {ops : List MonitorOp}
    (h : monitorEvent n ev = (n', .handled ops)) (hmem : .maybeAutoTile ∈ ops) : Tiles ev := by
  cases ev with
  | window change container =>
      obtain rfl := Monitored.handled.inj (Prod.mk.inj h).2
      exact tiles_of_handleWindowEvent hmem
  | workspace change current =>
      have hops := (Prod.mk.inj h).2
      split at hops
      · next ops' _ hw =>
          obtain rfl := Monitored.handled.inj hops
          exact absurd hmem (not_mem_handleWorkspaceEvent hw)
      · cases hops
  | shutdown => cases (Prod.mk.inj h).2
  | other =>
      obtain rfl := Monitored.handled.inj (Prod.mk.inj h).2
      cases hmem

/-- Event by event. -/
theorem sendsOnly_tileEvents {Q : SplitCommand → Prop} {events : List (SwayEvent × Option Node)}
    (hQ : ∀ ev tree, (ev, some tree) ∈ events → Tiles ev → ∀ c, SplitIn layout tree c → Q c)
    (n : Nat) : SendsOnly Q (fun _ => True) (tileEvents P layout n events) := by
  induction events generalizing n with
  | nil => exact .pure trivial
  | cons e rest ih =>
      obtain ⟨ev, tree⟩ := e
      unfold tileEvents
      split
      · next n' ops hev =>
          refine (sendsOnly_tileOps ?_).bind fun _ _ =>
            ih (fun ev' t' hmem => hQ ev' t' (List.mem_cons_of_mem _ hmem)) n'
          rintro hmem t rfl
          exact hQ ev t List.mem_cons_self (tiles_of_monitorEvent hev hmem)
      · exact .pure trivial

/-- **Auto-tiling does what is configured.** Whatever events the monitor thread gets,
whatever trees it sees and however sway answers, also if it panics in the end: every
command it sends splits a tiled window, outside of the scratchpad, after one of five
kinds of window events; the layout section sets `auto_tile`, and the split is the one
for the last minimal width that is configured for the output. -/
theorem auto_tile_as_configured (P : Peer σ SplitCommand SwayError)
    (layout : Option LayoutConfig) (events : List (SwayEvent × Option Node)) (n : Nat)
    (s : Session σ SplitCommand) :
    ∃ cs, (tileEvents P layout n events s).2.sent = s.sent ++ cs ∧
      ∀ c ∈ cs, ∃ ev tree, (ev, some tree) ∈ events ∧ Tiles ev ∧ SplitIn layout tree c :=
  (sendsOnly_tileEvents (fun ev tree hmem htiles _ hsplit =>
    ⟨ev, tree, hmem, htiles, hsplit⟩) n).sent s

end Swayr.Theorems.AutoTileConfigured
