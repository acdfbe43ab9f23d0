import Mathlib.Data.List.TakeWhile
import Swayr.Shared.Fmt

/-!
# How far a placeholder reaches

A match of `PLACEHOLDER_RX` ends at the first or the second closing brace after
the brace it begins with, and at the first one if no colon comes before it. A
stretch of a format string may therefore hold any text at all, and what follows
it is still substituted as if it stood alone, provided two closing braces stand
between.
-/

namespace Swayr.Shared

open Kit.Text

/-- A match is a front piece of the text and ends with its first or second
closing brace; the groups are parts of it. -/
structure Captures.Of (caps : Captures) (s : Text) : Prop where
  isPrefix : caps.text <+: s
  ends : ∃ body, caps.text = body ++ ['}'] ∧ body.count '}' ≤ 1
  name_subset : caps.name ⊆ caps.text
  fmtstr_subset : ∀ fmtstr ∈ caps.fmtstr, fmtstr ⊆ caps.text
  clipstr_subset : ∀ clipstr ∈ caps.clipstr, clipstr ⊆ caps.text

theorem count_takeWhile_ne (c : Char) {p : Char → Bool} (hp : p c = false) (s : Text) :
    (s.takeWhile p).count c = 0 := by
  rw [List.count_eq_zero]
  intro hmem
  have := List.mem_takeWhile_imp hmem
  rw [hp] at this
  exact Bool.false_ne_true this

/-- The captures are pieces of the text matched. -/
theorem placeholderAt_of {s : Text} {caps : Captures} (h : placeholderAt s = some caps) :
    caps.Of s := by
  unfold placeholderAt at h
  split at h
  · rename_i s
    have hs := List.takeWhile_append_dropWhile (p := fun c => c != '}' && c != ':') (l := s)
    have hname := count_takeWhile_ne '}' (p := fun c => c != '}' && c != ':') rfl s
    generalize s.takeWhile (fun c => c != '}' && c != ':') = name at h hs hname
    simp only at h
    split at h
    · simp at h
    split at h
    · -- `{name}`
      rename_i rest hdrop
      obtain rfl := Option.some.inj h
      rw [hdrop] at hs
      refine ⟨⟨rest, by simp [← hs]⟩, ⟨'{' :: name, rfl, by simp [hname]⟩, ?_, by simp, by simp⟩
      exact fun c hc => by simp [hc]
    · -- `{name:{...}...}`
      rename_i inner hdrop
      rw [hdrop] at hs
      have hi := List.takeWhile_append_dropWhile (p := (· != '}')) (l := inner)
      have hfmt := count_takeWhile_ne '}' (p := (· != '}')) rfl inner
      generalize inner.takeWhile (· != '}') = fmt at h hi hfmt
      split at h
      · rename_i outer hdrop'
        rw [hdrop'] at hi
        have ho := List.takeWhile_append_dropWhile (p := (· != '}')) (l := outer)
        have hclip := count_takeWhile_ne '}' (p := (· != '}')) rfl outer
        generalize outer.takeWhile (· != '}') = clip at h ho hclip
        split at h
        · rename_i rest hdrop''
          obtain rfl := Option.some.inj h
          rw [hdrop''] at ho
          refine ⟨⟨rest, by simp [← hs, ← hi, ← ho]⟩,
            ⟨'{' :: name ++ ':' :: ('{' :: fmt ++ ['}']) ++ clip, rfl, ?_⟩, ?_, ?_, ?_⟩
          · simp [hname, hfmt, hclip]
          · exact fun c hc => by simp [hc]
          · rintro _ ⟨⟩ c hc
            exact List.mem_append_left _ (List.mem_append_left _
              (List.mem_append_right _ (List.mem_cons_of_mem _ hc)))
          · rintro _ ⟨⟩ c hc
            simp [hc]
        · simp at h
      · simp at h
    · simp at h
  · simp at h

/-- A brace, a name, a brace. -/
theorem placeholderAt_name {name : Text} (hne : name ≠ []) (hname : '}' ∉ name ∧ ':' ∉ name)
    (t : Text) :
    placeholderAt ('{' :: name ++ '}' :: t) =
      some ⟨'{' :: name ++ ['}'], name, none, none⟩ := by
  have hp : ∀ c ∈ name, (c != '}' && c != ':') = true := by
    intro c hc
    simp only [Bool.and_eq_true, bne_iff_ne, ne_eq]
    exact ⟨fun h => hname.1 (h ▸ hc), fun h => hname.2 (h ▸ hc)⟩
  have htake : (name ++ '}' :: t).takeWhile (fun c => c != '}' && c != ':') = name := by
    rw [List.takeWhile_append_of_pos hp]
    simp
  have hdrop : (name ++ '}' :: t).dropWhile (fun c => c != '}' && c != ':') = '}' :: t := by
    rw [List.dropWhile_append_of_pos hp]
    simp
  have hempty : name.isEmpty = false := by simpa using hne
  simp only [List.cons_append, placeholderAt, htake, hdrop, hempty]
  rfl

/-! ## Texts that contain their placeholders -/

/-- A placeholder that begins in `s` ends in `s`, whatever follows. -/
def SelfContained (s : Text) : Prop :=
  ∀ c u, c :: u <:+ s → ∀ t caps, placeholderAt (c :: u ++ t) = some caps →
    caps.text.length ≤ u.length + 1

/-- No placeholder reaches beyond two closing braces. -/
theorem length_le_of_count {u t : Text} {caps : Captures} (hu : 2 ≤ u.count '}')
    (h : placeholderAt (u ++ t) = some caps) : caps.text.length ≤ u.length := by
  obtain ⟨body, hbody, hcount⟩ := (placeholderAt_of h).ends
  by_contra hlong
  have hpre : u <+: body := by
    refine List.prefix_of_prefix_length_le (List.prefix_append u t)
      (((List.prefix_append body ['}']).trans (hbody ▸ List.prefix_refl _)).trans
        (placeholderAt_of h).isPrefix) ?_
    rw [hbody, List.length_append, List.length_singleton] at hlong
    omega
  have := hpre.sublist.count_le '}'
  omega

/-- Whatever text comes first. -/
theorem SelfContained.append {a b : Text} (hb : SelfContained b) (hcount : 2 ≤ b.count '}') :
    SelfContained (a ++ b) := by
  intro c u hu t caps h
  rcases List.suffix_or_suffix_of_suffix hu (List.suffix_append a b) with hsuf | hsuf
  · exact hb c u hsuf t caps h
  · exact length_le_of_count (hcount.trans (hsuf.sublist.count_le '}')) h

theorem placeholderAt_of_ne {c : Char} (hc : c ≠ '{') (s : Text) :
    placeholderAt (c :: s) = none := by
  unfold placeholderAt
  split
  · rename_i heq
    exact absurd (List.cons.inj heq).1 hc
  · rfl

/-- No placeholder begins in the text that comes first. -/
theorem SelfContained.append_of_not_mem {a b : Text} (hb : SelfContained b) (ha : '{' ∉ a) :
    SelfContained (a ++ b) := by
  intro c u hu t caps h
  by_cases hc : c = '{'
  · subst hc
    rcases List.suffix_or_suffix_of_suffix hu (List.suffix_append a b) with hsuf | ⟨v, hv⟩
    · exact hb _ u hsuf t caps h
    · cases v with
      | nil => exact hb _ u ⟨[], hv.symm⟩ t caps h
      | cons d v =>
          -- the brace would stand in `a`
          obtain ⟨rfl, -⟩ := List.cons.inj hv
          obtain ⟨w, hw⟩ := hu
          rw [← hv, ← List.append_assoc] at hw
          have hmem : '{' ∈ a := by
            rw [← List.append_cancel_right hw]
            simp
          exact absurd hmem ha
  · rw [List.cons_append, placeholderAt_of_ne hc] at h
    simp at h

/-- A placeholder that begins with a brace before `s` ends in `s`: it is a name
without a colon, or two closing braces follow. -/
def closesIn (s : Text) : Bool :=
  2 ≤ s.count '}' || (s.dropWhile fun c => c != '}' && c != ':').head? == some '}'

/-- A check for texts that contain their placeholders. -/
def selfContained : Text → Bool
  | [] => true
  | c :: s => (c != '{' || closesIn s) && selfContained s

/-- A placeholder does not reach beyond the text in which its brace is closed. -/
theorem length_le_of_closesIn {s t : Text} {caps : Captures} (hs : closesIn s = true)
    (h : placeholderAt ('{' :: s ++ t) = some caps) : caps.text.length ≤ s.length + 1 := by
  simp only [closesIn, Bool.or_eq_true, decide_eq_true_eq, beq_iff_eq] at hs
  rcases hs with hcount | hclosed
  · exact length_le_of_count (u := '{' :: s) (by simpa using hcount) h
  · obtain ⟨rest, hdrop⟩ := List.head?_eq_some_iff.mp hclosed
    have hs := List.takeWhile_append_dropWhile (p := fun c => c != '}' && c != ':') (l := s)
    have hname : ∀ c ∈ s.takeWhile (fun c => c != '}' && c != ':'), c ≠ '}' ∧ c ≠ ':' := by
      intro c hc
      simpa using List.mem_takeWhile_imp hc
    rw [hdrop] at hs
    generalize s.takeWhile (fun c => c != '}' && c != ':') = name at hs hname
    subst hs
    by_cases hne : name = []
    · subst hne
      simp [placeholderAt] at h
    · rw [List.cons_append, List.append_assoc, List.cons_append, ← List.cons_append,
        placeholderAt_name hne ⟨fun hm => (hname _ hm).1 rfl, fun hm => (hname _ hm).2 rfl⟩] at h
      obtain rfl := Option.some.inj h
      simp

/-- The check is enough. -/
theorem selfContained_of_check {s : Text} (h : selfContained s = true) : SelfContained s := by
  induction s with
  | nil =>
      intro c u hu
      simp at hu
  | cons d s ih =>
      simp only [selfContained, Bool.and_eq_true, Bool.or_eq_true, bne_iff_ne, ne_eq] at h
      intro c u hu t caps hcaps
      rcases List.suffix_cons_iff.mp hu with heq | hu
      · obtain ⟨rfl, rfl⟩ := List.cons.inj heq
        by_cases hc : c = '{'
        · subst hc
          exact length_le_of_closesIn (h.1.resolve_left (by simp)) hcaps
        · rw [List.cons_append, placeholderAt_of_ne hc] at hcaps
          simp at hcaps
      · exact ih h.2 c u hu t caps hcaps

variable {R : RtFormat} {htmlEscape : Bool} {values : Text → Option FmtArg}

/-- What follows a text that contains its placeholders is substituted as if it
stood alone. -/
theorem exists_substPlaceholders_append {s t out rest : Text} (hs : SelfContained s)
    (hout : substPlaceholders R (s ++ t) htmlEscape values = some out)
    (hrest : substPlaceholders R t htmlEscape values = some rest) : ∃ p, out = p ++ rest := by
  rw [eq_of_tryReplaceAll hout, eq_of_tryReplaceAll hrest]
  refine exists_replaceAll_append fun c u hu n new hm => ?_
  obtain ⟨r, hr, heq⟩ := Option.map_eq_some_iff.mp hm
  obtain ⟨caps, hcaps, rfl⟩ := Option.map_eq_some_iff.mp hr
  obtain ⟨rfl, -⟩ := Prod.mk.inj heq
  obtain ⟨body, hbody, -⟩ := (placeholderAt_of hcaps).ends
  exact ⟨by simp [hbody], hs c u hu t caps hcaps⟩

/-- A character that opens no placeholder stays. -/
theorem substPlaceholders_cons_of_ne {c : Char} (hc : c ≠ '{') (s : Text) :
    substPlaceholders R (c :: s) htmlEscape values =
      (substPlaceholders R s htmlEscape values).map (c :: ·) :=
  tryReplaceAll_of_none (by rw [placeholderAt_of_ne hc]; rfl)

/-- A placeholder with a value and no format of its own. -/
theorem substPlaceholders_name {name : Text} (hne : name ≠ []) (hname : '}' ∉ name ∧ ':' ∉ name)
    {val : FmtArg} (hval : values name = some val) (t : Text) :
    substPlaceholders R ('{' :: name ++ '}' :: t) htmlEscape values =
      (substPlaceholders R t htmlEscape values).map
        (maybeHtmlEscape htmlEscape val.toString ++ ·) := by
  have hcaps := placeholderAt_name hne hname t
  have hsubst : substituted R htmlEscape values ⟨'{' :: name ++ ['}'], name, none, none⟩ =
      some (maybeHtmlEscape htmlEscape val.toString) := by
    simp only [substituted, hval, Captures.format, Option.getD_none, rtFormat_plain,
      Option.map_some]
  rw [List.cons_append] at hcaps ⊢
  rw [substPlaceholders, tryReplaceAll_of_some (n := name.length + 1)
    (show _ = some (_, some (maybeHtmlEscape htmlEscape val.toString)) by
      rw [hcaps, Option.map_some, hsubst]; simp)]
  have hdrop : (name ++ '}' :: t).drop (name.length + 1) = t := by
    rw [List.append_cons, List.drop_left' (by simp)]
  rw [hdrop]
  rfl

/-- A crate that does not panic fills in every format string. -/
theorem RtFormat.Total.exists_substPlaceholders (hR : R.Total) (fmtStr : Text)
    (htmlEscape : Bool) (values : Text → Option FmtArg) :
    ∃ s, substPlaceholders R fmtStr htmlEscape values = some s := by
  rw [← Option.isSome_iff_exists, substPlaceholders_isSome_iff]
  exact fun caps _ val _ => hR caps.format val

/-! ## NUL -/

def NulFree (s : Text) : Prop := '\x00' ∉ s

instance (s : Text) : Decidable (NulFree s) := inferInstanceAs (Decidable (¬ _ ∈ s))

/-- The crate puts no NUL into a text by itself. -/
def RtFormat.KeepsNulFree (R : RtFormat) : Prop :=
  ∀ fmt arg s, R.display fmt arg = .shown s → NulFree fmt → NulFree arg.toString → NulFree s

theorem NulFree.append {s t : Text} (hs : NulFree s) (ht : NulFree t) : NulFree (s ++ t) :=
  fun h => (List.mem_append.mp h).elim hs ht

theorem NulFree.intercalate {sep : Text} (hsep : NulFree sep) {l : List Text}
    (hl : ∀ s ∈ l, NulFree s) : NulFree (sep.intercalate l) := by
  induction l with
  | nil => simp [NulFree]
  | cons s l ih =>
      have hs := hl s List.mem_cons_self
      cases l with
      | nil => simpa using hs
      | cons t l =>
          rw [List.intercalate_cons_cons]
          exact .append (.append hs hsep) (ih fun u hu => hl u (List.mem_cons_of_mem s hu))

theorem NulFree.of_subset {s t : Text} (ht : NulFree t) (h : s ⊆ t) : NulFree s :=
  fun hs => ht (h hs)

theorem NulFree.replaceChar {new s : Text} (hnew : NulFree new) (hs : NulFree s) (c : Char) :
    NulFree (replaceChar c new s) := by
  intro h
  obtain ⟨x, hx, hmem⟩ := List.mem_flatMap.mp h
  split at hmem
  · exact hnew hmem
  · exact hs (List.mem_singleton.mp hmem ▸ hx)

theorem NulFree.replaceText {new s : Text} (hnew : NulFree new) (hs : NulFree s) (pat : Text) :
    NulFree (replaceText pat new s) := by
  intro h
  refine forall_mem_replaceAll (P := (· ≠ '\x00')) (fun x hx heq => hs (heq ▸ hx))
    (fun u _ n r hm x hx heq => ?_) _ h rfl
  obtain ⟨-, -, rfl⟩ := literal_eq_some hm
  exact hnew (heq ▸ hx)

theorem NulFree.maybeHtmlEscape {s : Text} (hs : NulFree s) (doIt : Bool) :
    NulFree (maybeHtmlEscape doIt s) := by
  cases doIt with
  | false => exact hs
  | true =>
      exact .replaceChar (by decide) (.replaceChar (by decide) (.replaceChar (by decide) hs _) _) _

/-- A crate that adds no NUL makes none out of texts without. -/
theorem NulFree.rtFormat (hR : R.KeepsNulFree) {fmt clip out : Text} {arg : FmtArg}
    (hfmt : NulFree fmt) (harg : NulFree arg.toString) (hclip : NulFree clip)
    (hout : rtFormat R fmt arg clip = some out) : NulFree out := by
  unfold Shared.rtFormat at hout
  split at hout
  · rename_i s hs
    have hdisplay := hR fmt arg s hs hfmt harg
    obtain rfl := Option.some.inj hout
    split
    · rw [removeLastNChars_eq]
      exact .append (hdisplay.of_subset (List.take_subset _ _)) hclip
    · exact hdisplay
  · obtain rfl := Option.some.inj hout
    exact .append (by decide) hfmt
  · cases hout

theorem NulFree.substituted (hR : R.KeepsNulFree) {caps : Captures} {s new : Text}
    (hof : caps.Of s) (hs : NulFree s)
    (hvalues : ∀ name val, values name = some val → NulFree val.toString)
    (hnew : substituted R htmlEscape values caps = some new) : NulFree new := by
  have htext : NulFree caps.text := hs.of_subset hof.isPrefix.subset
  unfold Shared.substituted at hnew
  split at hnew
  · rename_i val hval
    obtain ⟨out, hout, rfl⟩ := Option.map_eq_some_iff.mp hnew
    refine .maybeHtmlEscape (.rtFormat hR ?_ (hvalues _ _ hval) ?_ hout) _
    · unfold Captures.format
      cases hf : caps.fmtstr with
      | none => simp [NulFree]
      | some fmtstr => exact htext.of_subset (hof.fmtstr_subset _ hf)
    · cases hc : caps.clipstr with
      | none => simp [NulFree]
      | some clipstr => exact htext.of_subset (hof.clipstr_subset _ hc)
  · exact Option.some.inj hnew ▸ htext

/-- Neither the format nor the values bring a NUL into the result. -/
theorem NulFree.substPlaceholders (hR : R.KeepsNulFree) {fmtStr out : Text}
    (hfmt : NulFree fmtStr) (hvalues : ∀ name val, values name = some val → NulFree val.toString)
    (hout : substPlaceholders R fmtStr htmlEscape values = some out) : NulFree out := by
  rw [eq_of_tryReplaceAll hout]
  intro h
  refine forall_mem_replaceAll (P := (· ≠ '\x00')) (fun x hx heq => hfmt (heq ▸ hx))
    (fun u hu n new hm => ?_) _ h rfl
  obtain ⟨r, hr, heq⟩ := Option.map_eq_some_iff.mp hm
  obtain ⟨caps, hcaps, rfl⟩ := Option.map_eq_some_iff.mp hr
  obtain ⟨-, rfl⟩ := Prod.mk.inj heq
  cases hnew : Shared.substituted R htmlEscape values caps with
  | none => simp
  | some new =>
      have hfree : NulFree new := .substituted hR (placeholderAt_of hcaps)
        (hfmt.of_subset hu.subset) hvalues hnew
      exact fun x hx heq => hfree (heq ▸ hx)

theorem RtFormat.basic_keepsNulFree : RtFormat.basic.KeepsNulFree := by
  have hpad : ∀ align width s, NulFree s → NulFree (pad align width s) := by
    intro align width s hs
    have hfill : ∀ n, NulFree (List.replicate n ' ') := fun n h =>
      absurd (List.eq_of_mem_replicate h) (by decide)
    unfold pad
    split
    · exact .append hs (hfill _)
    · exact .append hs (hfill _)
    · exact .append (hfill _) hs
    · exact .append (.append (hfill _) hs) (hfill _)
  intro fmt arg s h hfmt harg
  simp only [basic] at h
  split at h
  · cases h
  · split at h
    · cases arg with
      | string t =>
          obtain rfl := Displayed.shown.inj h
          exact hpad _ _ _ (harg.of_subset (List.take_subset _ _))
      | i64 x | i32 x | u8 x | f64 x | f32 x =>
          obtain rfl := Displayed.shown.inj h
          exact hpad _ _ _ harg
    · cases h

end Swayr.Shared
