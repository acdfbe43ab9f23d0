import Swayr.Kit.PegInput
import Swayr.Theorems.CriteriaSpelling

/-!
# Blanks around a criteria query, and line breaks in it

`parse` skips blanks before the query. Blanks behind it are read by the rules of
the three combinators, which end with `space`, but by none of the simple
criteria, and `parse` itself wants to be at the end: `[and] ` is a query,
`tiling ` is not (`parse_blanks_iff`).

`space` knows spaces and tabs only. A line break is read nowhere but between the
quotes of a string literal, so that no query can be broken into lines.
-/

namespace Swayr.Theorems.CriteriaBlanks

open Kit.Peg Kit.Peg.Rule Criteria CriteriaSpelling

variable {E : RegexEngine}

/-! ## Combinators and simple criteria -/

/-- One of the three criteria with others below. -/
def combines : Criterion E → Bool
  | .and _ | .or _ | .not _ => true
  | _ => false

/-- The rules for lists make lists, and the one for `not` a negation. -/
theorem yields_listed (p : Rule (Criterion E)) :
    Yields (fun c => combines c = true) (and_ p) ∧ Yields (fun c => combines c = true) (or_ p) ∧
      Yields (fun c => combines c = true) (not_ p) := by
  refine ⟨?_, ?_, ?_⟩
  · exact .bind fun _ => .bind fun _ => .bind fun _ => .bind fun _ => .pure rfl
  · exact .bind fun _ => .bind fun _ => .bind fun _ => .bind fun _ => .pure rfl
  · exact .bind fun _ => .bind fun _ => .bind fun _ => .bind fun _ => .pure rfl

theorem yields_keyValue {α : Type} (name : String) (value : Rule α) {mk : α → Criterion E}
    (hmk : ∀ v, combines (mk v) = false) :
    Yields (fun c => combines c = false) (keyValue name value mk) :=
  .bind fun _ => .bind fun _ => .bind fun _ => .bind fun _ => .bind fun v => .pure (hmk v)

/-- The simple rules make neither. -/
theorem yields_simple : Yields (fun c => combines c = false) (simple : Rule (Criterion E)) := by
  unfold simple
  refine .choice (.bind fun _ => .pure rfl) <| .choice (.bind fun _ => .pure rfl) <|
    .choice ?_ <| .choice ?_ <| .choice ?_ <| .choice ?_ <| .choice ?_ <| .choice ?_ <|
    .choice ?_ <| .choice ?_ <| .choice ?_ ?_
  all_goals exact yields_keyValue _ _ fun _ => rfl

/-! ## Blanks at the end -/

section blanks

variable {b : List Char} (hb : Blanks b)

include hb

/-- Blanks are read to their end. -/
theorem drops_space : Drops b space := by
  have hend : b.dropWhile isBlank = [] := List.dropWhile_eq_nil_iff.mpr hb
  have happly : ∀ inp, space (inp ++ b) = some ((), (inp ++ b).dropWhile isBlank) :=
    fun inp => rfl
  refine ⟨⟨?_, ?_⟩, ?_⟩
  · intro inp h
    simp [space_apply] at h
  · intro inp a rest h
    obtain rfl : inp.dropWhile isBlank = rest := (Prod.mk.inj (Option.some.inj h)).2
    rw [happly, List.dropWhile_append]
    split
    · rename_i hnil
      exact .inr ⟨List.isEmpty_iff.mp hnil, by rw [hend]⟩
    · exact .inl rfl
  · intro inp a h
    have hnil : inp.dropWhile isBlank = [] := (Prod.mk.inj (Option.some.inj h)).2
    rw [happly, List.dropWhile_append, hnil, List.isEmpty_nil, if_pos rfl, hend]

theorem keeps_lit {s : String} (hs : s.toList.any isBlank = false) : Keeps b (lit s) := by
  refine .text fun c hc hmem => ?_
  have := List.any_eq_false.mp hs c hc
  exact this (hb c hmem)

theorem keeps_word {α : Type} {s : String} (hs : s.toList.any isBlank = false) (a : α) :
    Keeps b (do lit s; pure a : Rule α) :=
  (keeps_lit hb hs).bind fun _ => .pure a

/-- A string ends at its quote. -/
theorem keeps_stringLiteral : Keeps b stringLiteral := by
  have hquote : '"' ∉ b := by
    intro h
    have := hb _ h
    simp [isBlank] at this
  exact (keeps_lit hb (by decide)).bind fun _ => .upTo hquote String.ofList

theorem keeps_intLiteral : Keeps b intLiteral := by
  have hdigit : ∀ c ∈ b, c.isDigit = false := by
    intro c hc
    have hblank := hb c hc
    simp only [isBlank, Bool.or_eq_true, beq_iff_eq] at hblank
    rcases hblank with rfl | rfl <;> rfl
  exact (keeps_lit hb (by decide)).opt.bind fun _ => (Keeps.plus hdigit).bind fun _ => .pure _

theorem keeps_regexOrFocused : Keeps b (regexOrFocused : Rule (RegexOrFocused E)) :=
  (keeps_word hb (by decide) _).choice ((keeps_stringLiteral hb).bind fun _ => .pure _)

theorem keeps_i64OrFocused : Keeps b i64OrFocused :=
  (keeps_word hb (by decide) _).choice ((keeps_intLiteral hb).mapOption.bind fun _ => .pure _)

theorem keeps_shellTypeOrFocused : Keeps b shellTypeOrFocused :=
  (keeps_word hb (by decide) _).choice
    ((keeps_word hb (by decide) _).choice (keeps_word hb (by decide) _))

/-- The blanks before a value are not at the end. -/
theorem keeps_keyValue {α : Type} {name : String} (hname : name.toList.any isBlank = false)
    {value : Rule α} (hv : Keeps b value) (hlen : Consumes value) (mk : α → Criterion E) :
    Keeps b (keyValue name value mk) := by
  have hspace := (drops_space hb).toPads
  have hvalue : Keeps b (do let v ← value; pure (mk v) : Rule (Criterion E)) :=
    hv.bind fun _ => .pure _
  have hvaluelen : Consumes (do let v ← value; pure (mk v) : Rule (Criterion E)) :=
    hlen.bind fun _ => nonGrowing_pure _
  have hsign : Keeps b (do lit "="; space; let v ← value; pure (mk v) : Rule (Criterion E)) :=
    (keeps_lit hb (by decide)).bind fun _ =>
      .of_consumes hspace (fun _ => hvalue) fun _ => hvaluelen
  have hsignlen : Consumes (do lit "="; space; let v ← value; pure (mk v) : Rule (Criterion E)) :=
    (consumes_lit (by decide)).bind fun _ => nonGrowing_space.bind fun _ => hvaluelen.nonGrowing
  exact (keeps_lit hb hname).bind fun _ => .of_consumes hspace (fun _ => hsign) fun _ => hsignlen

/-- No simple criterion reads blanks at the end. -/
theorem keeps_simple : Keeps b (simple : Rule (Criterion E)) := by
  have hrof := keeps_regexOrFocused (E := E) hb
  have hlen := consumes_regexOrFocused (E := E)
  unfold simple
  refine .choice (keeps_word hb (by decide) _) <| .choice (keeps_word hb (by decide) _) <|
    .choice ?_ <| .choice ?_ <| .choice ?_ <| .choice ?_ <| .choice ?_ <| .choice ?_ <|
    .choice ?_ <| .choice ?_ <| .choice ?_ ?_
  · exact keeps_keyValue hb (by decide) hrof hlen _
  · exact keeps_keyValue hb (by decide) hrof hlen _
  · exact keeps_keyValue hb (by decide) hrof hlen _
  · exact keeps_keyValue hb (by decide) hrof hlen _
  · exact keeps_keyValue hb (by decide) hrof hlen _
  · exact keeps_keyValue hb (by decide) (keeps_shellTypeOrFocused hb)
      consumes_shellTypeOrFocused _
  · exact keeps_keyValue hb (by decide) hrof hlen _
  · exact keeps_keyValue hb (by decide) (keeps_stringLiteral hb) consumes_stringLiteral _
  · exact keeps_keyValue hb (by decide) (keeps_i64OrFocused hb) consumes_i64OrFocused _
  · exact keeps_keyValue hb (by decide) (keeps_intLiteral hb).mapOption
      consumes_intLiteral.mapOption _

/-- Keywords have no blanks in them. -/
theorem keeps_keyword {k₁ k₂ k₃ : String} (h₁ : k₁.toList.any isBlank = false)
    (h₂ : k₂.toList.any isBlank = false) (h₃ : k₃.toList.any isBlank = false) :
    Keeps b (choice (lit k₁) (choice (lit k₂) (lit k₃))) :=
  (keeps_lit hb h₁).choice ((keeps_lit hb h₂).choice (keeps_lit hb h₃))

section combinators

variable {p : Rule (Criterion E)} (hp : Pads b p) (hlen : Consumes p)

include hp hlen

/-- Blanks behind the closing bracket are read. -/
theorem drops_listRest : Drops b (listRest p) := by
  have hspace := drops_space hb
  have hclose : ∀ l : List (Criterion E), Drops b (do space; lit "]"; space; pure l) := by
    intro l
    refine .bind hspace.toPads (fun _ => .bind (keeps_lit hb (by decide)).pads
      (fun _ => hspace.bind_pure _) ?_) ?_
    · exact fun _ => nonGrowing_space.bind fun _ => nonGrowing_pure _
    · exact fun _ => (consumes_lit (by decide)).nonGrowing.bind fun _ =>
        nonGrowing_space.bind fun _ => nonGrowing_pure _
  have hcloselen : ∀ l : List (Criterion E), NonGrowing (do space; lit "]"; space; pure l) :=
    fun _ => nonGrowing_space.bind fun _ => (consumes_lit (by decide)).nonGrowing.bind fun _ =>
      nonGrowing_space.bind fun _ => nonGrowing_pure _
  refine .bind hspace.toPads (fun _ => .bind ?_ hclose hcloselen) ?_
  · exact hp.sepBy hspace.toPads hlen nonGrowing_space
  · exact fun _ => (nonGrowing_sepBy hlen nonGrowing_space).bind hcloselen

/-- A list reads the blanks behind its bracket. -/
theorem drops_bracketed {α : Type} {kw : Rule α} (hkw : Pads b kw) (hkwlen : NonGrowing kw)
    (mk : List (Criterion E) → Criterion E) :
    Drops b (do lit "["; space; let _ ← kw; let l ← listRest p; pure (mk l)) := by
  have hrest := nonGrowing_listRest hlen
  refine .bind (keeps_lit hb (by decide)).pads (fun _ => .bind (drops_space hb).toPads
    (fun _ => .bind hkw (fun _ => (drops_listRest hb hp hlen).bind_pure mk) ?_) ?_) ?_
  · exact fun _ => hrest.bind fun _ => nonGrowing_pure _
  · exact fun _ => hkwlen.bind fun _ => hrest.bind fun _ => nonGrowing_pure _
  · exact fun _ => nonGrowing_space.bind fun _ => hkwlen.bind fun _ => hrest.bind fun _ =>
      nonGrowing_pure _

theorem drops_and : Drops b (and_ p) :=
  drops_bracketed hb hp hlen (keeps_keyword hb (by decide) (by decide) (by decide)).opt.pads
    (consumes_keyword (by decide) (by decide) (by decide)).nonGrowing.opt .and

theorem drops_or : Drops b (or_ p) :=
  drops_bracketed hb hp hlen (keeps_keyword hb (by decide) (by decide) (by decide)).pads
    (consumes_keyword (by decide) (by decide) (by decide)).nonGrowing .or

/-- Blanks behind the operand of `not` are read, by the operand or by `not`. -/
theorem drops_not : Drops b (not_ p) := by
  have hend : ∀ c : Criterion E, Drops b (do space; pure (Criterion.not c)) :=
    fun c => (drops_space hb).bind_pure fun _ => Criterion.not c
  have hendlen : ∀ c : Criterion E, NonGrowing (do space; pure (Criterion.not c)) :=
    fun c => nonGrowing_space.bind fun _ => nonGrowing_pure _
  refine .bind (keeps_keyword hb (by decide) (by decide) (by decide)).pads
    (fun _ => .bind (drops_space hb).toPads (fun _ => .bind hp hend hendlen) ?_) ?_
  · exact fun _ => hlen.nonGrowing.bind hendlen
  · exact fun _ => nonGrowing_space.bind fun _ => hlen.nonGrowing.bind hendlen

end combinators

/-- By induction on the nesting: elements of lists are read as they stand. -/
theorem pads_criterion (fuel : Nat) : Pads b (criterion fuel : Rule (Criterion E)) := by
  induction fuel with
  | zero => exact .fail
  | succ fuel ih =>
      have hlen := consumes_criterion (E := E) fuel
      rw [criterion]
      exact (drops_and hb ih hlen).choice <| (drops_or hb ih hlen).choice <|
        (drops_not hb ih hlen).choice (keeps_simple hb).pads

end blanks

/-! ## Which criteria read them -/

/-- A criterion that came to the end leaves blanks added there, unless it is a
combinator. -/
theorem criterion_blanks {b : List Char} (hb : Blanks b) (fuel : Nat) :
    Settles b combines (criterion fuel : Rule (Criterion E)) := by
  cases fuel with
  | zero =>
      refine ⟨fun _ _ => rfl, ?_⟩
      intro inp c h
      simp [criterion, fail] at h
  | succ fuel =>
      have hp := pads_criterion (E := E) hb fuel
      have hlen := consumes_criterion (E := E) fuel
      obtain ⟨hand, hor, hnot⟩ := yields_listed (criterion (E := E) fuel)
      rw [criterion]
      exact .choice (.of_drops (drops_and hb hp hlen) hand) <|
        .choice (.of_drops (drops_or hb hp hlen) hor) <|
        .choice (.of_drops (drops_not hb hp hlen) hnot) <|
        .of_keeps (keeps_simple hb) yields_simple

/-- Blanks before a query are skipped. -/
theorem parse_eq_some_iff {s : List Char} {c : Criterion E} :
    parse s = some c ↔ criterion (s.length + 1) (s.dropWhile isBlank) = some (c, []) := by
  have happly : (do space; criterion (s.length + 1) : Rule (Criterion E)) s =
      criterion (s.length + 1) (s.dropWhile isBlank) := rfl
  rw [parse, happly]
  constructor
  · intro h
    split at h
    · rename_i c' heq
      rw [heq, Option.some.inj h]
    · simp at h
  · intro h
    rw [h]

/-- Blanks before the query are skipped, and blanks behind it are left to the
criterion. -/
theorem parse_padded {s : List Char} {c : Criterion E} (h : parse s = some c)
    {b b' : List Char} (hb : Blanks b) (hb' : Blanks b') (c' : Criterion E) :
    parse (b ++ (s ++ b')) = some c' ↔ c' = c ∧ (b' = [] ∨ combines c = true) := by
  have hcrit := parse_eq_some_iff.mp h
  have hne : s.dropWhile isBlank ≠ [] := by
    intro hnil
    rw [hnil] at hcrit
    have := consumes_criterion _ _ _ _ hcrit
    simp at this
  have hdrop : (b ++ (s ++ b')).dropWhile isBlank = s.dropWhile isBlank ++ b' := by
    rw [List.dropWhile_append_of_pos hb, List.dropWhile_append, if_neg]
    rwa [List.isEmpty_iff]
  have hlen : (s.dropWhile isBlank).length ≤ s.length := List.length_dropWhile_le _ _
  -- the recursion has the room it needs for either text
  have hfuel : criterion ((b ++ (s ++ b')).length + 1) (s.dropWhile isBlank) = some (c, []) := by
    rw [← hcrit]
    refine criterion_fuel ?_ (by omega)
    simp only [List.length_append]
    omega
  rw [parse_eq_some_iff, hdrop, (criterion_blanks hb' _).ends _ c hfuel]
  simp only [Option.some.injEq, Prod.mk.injEq, ite_eq_left_iff, Bool.not_eq_true]
  cases combines c <;> simp [eq_comm]

/-! ## Line breaks -/

/-- Behind `u` no string literal is open. -/
def OutsideQuotes (u : List Char) : Prop := u.count '"' % 2 = 0

instance (u : List Char) : Decidable (OutsideQuotes u) := inferInstanceAs (Decidable (_ = _))

/-- Quotes come in pairs, and every line break stands between two of them. -/
structure OneLine (s : List Char) : Prop where
  closed : OutsideQuotes s
  quoted : ∀ u v, s = u ++ '\n' :: v → ¬ OutsideQuotes u

/-- Without a line break there is none to be in quotes. -/
theorem OneLine.of_not_mem {s : List Char} (hbr : '\n' ∉ s) (hs : OutsideQuotes s) :
    OneLine s := by
  refine ⟨hs, ?_⟩
  rintro u v rfl
  exact absurd (List.mem_append_right u List.mem_cons_self) hbr

instance : Joins OneLine := by
  refine ⟨.of_not_mem List.not_mem_nil (by decide), ?_⟩
  rintro s t ⟨hs, hsq⟩ ⟨ht, htq⟩
  unfold OutsideQuotes at hs hsq ht htq
  constructor
  · unfold OutsideQuotes
    rw [List.count_append]
    omega
  · intro u v h
    unfold OutsideQuotes
    rcases List.append_eq_append_iff.mp h with ⟨w, rfl, hw⟩ | ⟨w, rfl, hw⟩
    · -- the break is in the second piece, behind `w`
      have := htq w v hw
      rw [List.count_append]
      omega
    · cases w with
      | nil =>
          have := htq [] v (by simpa using hw.symm)
          simp at this
      | cons d w =>
          obtain ⟨rfl, -⟩ := List.cons.inj hw
          exact hsq u w rfl

theorem eats_lit {s : String} (hbr : s.toList.contains '\n' = false)
    (hs : OutsideQuotes s.toList) : Eats OneLine (lit s) := by
  refine .text (.of_not_mem ?_ hs)
  simpa using hbr

theorem eats_pure {α : Type} (a : α) : Eats OneLine (pure a : Rule α) := .pure Joins.nil a

/-- A keyword has no line break. -/
theorem eats_word {α : Type} {s : String} (hbr : s.toList.contains '\n' = false)
    (hs : OutsideQuotes s.toList) (a : α) : Eats OneLine (do lit s; pure a : Rule α) :=
  (eats_lit hbr hs).bind fun _ => eats_pure a

/-- Characters that are neither quotes nor line breaks. -/
theorem oneLine_run {cls : Char → Bool} (hquote : cls '"' = false) (hbr : cls '\n' = false)
    (run : List Char) (hrun : ∀ c ∈ run, cls c = true) : OneLine run := by
  have hnot : ∀ d, cls d = false → d ∉ run := by
    intro d hd hmem
    rw [hrun d hmem] at hd
    exact Bool.noConfusion hd
  refine .of_not_mem (hnot _ hbr) ?_
  unfold OutsideQuotes
  rw [List.count_eq_zero.mpr (hnot _ hquote)]

theorem eats_space : Eats OneLine space :=
  (Eats.star (oneLine_run (by decide) (by decide))).bind fun _ => eats_pure _

/-- A string literal may have line breaks, all of them behind its first quote. -/
theorem eats_stringLiteral : Eats OneLine stringLiteral := by
  have hquote : Eats (· = ['"']) (lit "\"") := .text rfl
  have hrun : Eats (fun run => '"' ∉ run) (star (· != '"')) := by
    refine .star fun run hrun hmem => ?_
    simpa using hrun _ hmem
  have hend : ∀ s : List Char, Eats (· = ['"']) (do lit "\""; pure (String.ofList s)) :=
    fun s => hquote.seq (fun _ => .pure (Q := (· = [])) rfl (String.ofList s)) fun hs ht => by
      rw [hs, ht, List.append_nil]
  have hbody : Eats (fun t => ∃ run, '"' ∉ run ∧ t = run ++ ['"'])
      (do let s ← star (· != '"'); lit "\""; pure (String.ofList s)) :=
    hrun.seq hend fun hs ht => ⟨_, hs, by rw [ht]⟩
  refine hquote.seq (fun _ => hbody) ?_
  rintro _ _ rfl ⟨run, hmem, rfl⟩
  have hzero : run.count '"' = 0 := List.count_eq_zero.mpr hmem
  constructor
  · simp [OutsideQuotes, hzero]
  · -- A line break stands behind the opening quote and before the closing one.
    intro u v h
    cases u with
    | nil => simp at h
    | cons d u =>
        obtain ⟨rfl, htail⟩ := List.cons.inj h
        replace htail : run ++ ['"'] = u ++ '\n' :: v := htail
        rcases List.append_eq_append_iff.mp htail with ⟨w, rfl, hw⟩ | ⟨w, rfl, hw⟩
        · cases w with
          | nil => simp at hw
          | cons e w => simp at hw
        · have : u.count '"' = 0 := List.count_eq_zero.mpr fun hu =>
            hmem (List.mem_append_left w hu)
          simp [OutsideQuotes, this]

theorem eats_intLiteral : Eats OneLine intLiteral :=
  (eats_lit (by decide) (by decide)).opt.bind fun _ =>
    (Eats.plus (oneLine_run (by decide) (by decide))).bind fun _ => eats_pure _

/-- Only a string may have one, and then inside its quotes. -/
theorem eats_regexOrFocused : Eats OneLine (regexOrFocused : Rule (RegexOrFocused E)) :=
  (eats_word (by decide) (by decide) _).choice (eats_stringLiteral.bind fun _ => eats_pure _)

theorem eats_i64OrFocused : Eats OneLine i64OrFocused :=
  (eats_word (by decide) (by decide) _).choice
    (eats_intLiteral.mapOption.bind fun _ => eats_pure _)

theorem eats_shellTypeOrFocused : Eats OneLine shellTypeOrFocused :=
  (eats_word (by decide) (by decide) _).choice
    ((eats_word (by decide) (by decide) _).choice (eats_word (by decide) (by decide) _))

theorem eats_keyValue {α : Type} {name : String} (hbr : name.toList.contains '\n' = false)
    (hname : OutsideQuotes name.toList) {value : Rule α} (hv : Eats OneLine value)
    (mk : α → Criterion E) : Eats OneLine (keyValue name value mk) :=
  (eats_lit hbr hname).bind fun _ => eats_space.bind fun _ =>
    (eats_lit (by decide) (by decide)).bind fun _ =>
      eats_space.bind fun _ => hv.bind fun _ => eats_pure _

/-- Each of the alternatives. -/
theorem eats_simple : Eats OneLine (simple : Rule (Criterion E)) := by
  have hrof := eats_regexOrFocused (E := E)
  unfold simple
  refine .choice (eats_word (by decide) (by decide) _) <|
    .choice (eats_word (by decide) (by decide) _) <|
    .choice ?_ <| .choice ?_ <| .choice ?_ <| .choice ?_ <| .choice ?_ <| .choice ?_ <|
    .choice ?_ <| .choice ?_ <| .choice ?_ ?_
  · exact eats_keyValue (by decide) (by decide) hrof _
  · exact eats_keyValue (by decide) (by decide) hrof _
  · exact eats_keyValue (by decide) (by decide) hrof _
  · exact eats_keyValue (by decide) (by decide) hrof _
  · exact eats_keyValue (by decide) (by decide) hrof _
  · exact eats_keyValue (by decide) (by decide) eats_shellTypeOrFocused _
  · exact eats_keyValue (by decide) (by decide) hrof _
  · exact eats_keyValue (by decide) (by decide) eats_stringLiteral _
  · exact eats_keyValue (by decide) (by decide) eats_i64OrFocused _
  · exact eats_keyValue (by decide) (by decide) eats_intLiteral.mapOption _

theorem eats_keyword {k₁ k₂ k₃ : String} (h₁ : Eats OneLine (lit k₁))
    (h₂ : Eats OneLine (lit k₂)) (h₃ : Eats OneLine (lit k₃)) :
    Eats OneLine (choice (lit k₁) (choice (lit k₂) (lit k₃))) :=
  h₁.choice (h₂.choice h₃)

/-- Elements that keep to one line make a list that does. -/
theorem eats_listRest {p : Rule (Criterion E)} (hp : Eats OneLine p) :
    Eats OneLine (listRest p) :=
  eats_space.bind fun _ => (hp.sepBy eats_space).bind fun _ => eats_space.bind fun _ =>
    (eats_lit (by decide) (by decide)).bind fun _ => eats_space.bind fun _ => eats_pure _

/-- Every text a criterion is read from is one line, up to its string literals. -/
theorem eats_criterion (fuel : Nat) : Eats OneLine (criterion fuel : Rule (Criterion E)) := by
  induction fuel with
  | zero => exact .fail
  | succ fuel ih =>
      have hand := eats_keyword (eats_lit (s := "AND") (by decide) (by decide))
        (eats_lit (s := "and") (by decide) (by decide))
        (eats_lit (s := "&&") (by decide) (by decide))
      have hor := eats_keyword (eats_lit (s := "OR") (by decide) (by decide))
        (eats_lit (s := "or") (by decide) (by decide))
        (eats_lit (s := "||") (by decide) (by decide))
      have hnot := eats_keyword (eats_lit (s := "NOT") (by decide) (by decide))
        (eats_lit (s := "not") (by decide) (by decide))
        (eats_lit (s := "!") (by decide) (by decide))
      have hopen := eats_lit (s := "[") (by decide) (by decide)
      rw [criterion]
      refine .choice ?_ <| .choice ?_ <| .choice ?_ eats_simple
      · exact hopen.bind fun _ => eats_space.bind fun _ => hand.opt.bind fun _ =>
          (eats_listRest ih).bind fun _ => eats_pure _
      · exact hopen.bind fun _ => eats_space.bind fun _ => hor.bind fun _ =>
          (eats_listRest ih).bind fun _ => eats_pure _
      · exact hnot.bind fun _ => eats_space.bind fun _ => ih.bind fun _ =>
          eats_space.bind fun _ => eats_pure _

/-- An accepted text is one line, up to its string literals. -/
theorem oneLine_of_parse {s : List Char} {c : Criterion E} (h : parse s = some c) :
    OneLine s := by
  have hcrit := parse_eq_some_iff.mp h
  have hrule : (do space; criterion (s.length + 1) : Rule (Criterion E)) s = some (c, []) := hcrit
  obtain ⟨piece, heq, hpiece⟩ := (eats_space.bind fun _ =>
    eats_criterion (E := E) (s.length + 1)) s c [] hrule
  rwa [heq, List.append_nil]

/-! ## The result -/

/-- Blanks may be added before any query, and behind it exactly to the three
combinators; a text with a line break outside the string literals is rejected,
whatever it was before the line break was put in. -/
theorem parse_blanks_iff :
    (∀ (s : List Char) (c : Criterion E) (b b' : List Char), parse s = some c → Blanks b →
      Blanks b' → (parse (b ++ (s ++ b')) = some c ↔ b' = [] ∨ combines c = true)) ∧
    ∀ u v : List Char, OutsideQuotes u → parse (E := E) (u ++ '\n' :: v) = none := by
  constructor
  · intro s c b b' h hb hb'
    rw [parse_padded h hb hb']
    exact and_iff_right rfl
  · intro u v hu
    cases h : parse (E := E) (u ++ '\n' :: v) with
    | none => rfl
    | some c => exact absurd hu ((oneLine_of_parse h).quoted u v rfl)

/-- The first line of the manual's nested query. -/
def nestedLine : List Char := "[|| [app_id=\"firefox\" tiling]".toList

/-- The rest of it, without its indentation. -/
def nestedRest : List Char :=
  "[&& !app_id=\"firefox\" floating workspace=__focused__]]".toList

/-- Blanks may be added around a nested query, but no line break inside. -/
theorem parse_blanks_iff_nested :
    (∃ c : Criterion .matchAll, parse (nestedLine ++ ([' '] ++ nestedRest)) = some c ∧
      parse (['\t'] ++ ((nestedLine ++ ([' '] ++ nestedRest)) ++ [' '])) = some c) ∧
    parse (E := .matchAll) (nestedLine ++ '\n' :: ("    ".toList ++ nestedRest)) = none := by
  refine ⟨?_, (parse_blanks_iff (E := .matchAll)).2 nestedLine _ (by decide)⟩
  have hlist : (parse (E := .matchAll) (nestedLine ++ ([' '] ++ nestedRest))).any combines =
      true := by decide +kernel
  obtain ⟨c, hc, hcomb⟩ := (Option.any_eq_true _ _).mp hlist
  exact ⟨c, hc, (parse_blanks_iff.1 _ c ['\t'] [' '] hc (by decide) (by decide)).mpr
    (.inr hcomb)⟩

/-- A blank behind a simple criterion, and the line break of the manual's
example. -/
theorem blank_and_lineBreak_rejected :
    ((parse (E := .matchAll) "tiling".toList).isSome = true ∧
      (parse (E := .matchAll) "tiling ".toList).isSome = false) ∧
    (parse (E := .matchAll) (nestedLine ++ ("    ".toList ++ nestedRest))).isSome = true ∧
      (parse (E := .matchAll) (nestedLine ++ '\n' :: ("    ".toList ++ nestedRest))).isSome =
        false := by
  decide +kernel

end Swayr.Theorems.CriteriaBlanks
