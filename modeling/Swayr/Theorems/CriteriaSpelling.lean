import Mathlib.Data.List.DropRight
import Swayr.Criteria.Grammar

/-!
# Every documented spelling of a criteria query is parsed back

`Spells c s` says that `s` is a way of writing `c` that the manual allows:
every keyword in its three forms, the `and` left out, any blanks where blanks
may stand. `parse_spelling` shows that the grammar reads each of them as `c`;
hence no text spells two queries.

Ordered choice makes this a question of what cannot match. All texts a
criterion can start with (`heads`) clash pairwise, so that an alternative tried
too early fails on its first literal.
-/

namespace Swayr.Theorems.CriteriaSpelling

open Kit.Peg Kit.Peg.Rule Criteria Ipc

variable {E : RegexEngine}

/-! ## Spellings -/

/-- Spaces and tabs, any number of them. -/
def Blanks (b : List Char) : Prop := ∀ c ∈ b, isBlank c = true

instance (b : List Char) : Decidable (Blanks b) := decidable_of_iff _ List.all_eq_true

inductive SpellsRegex : RegexOrFocused E → List Char → Prop
  | regex (rx : Regex E) : '"' ∉ rx.source.toList →
      SpellsRegex (.regex rx) ('"' :: rx.source.toList ++ ['"'])
  | focused : SpellsRegex .focused "__focused__".toList

/-- Decimal digits, leading zeros allowed, with an optional minus sign. -/
inductive SpellsInt : Int → List Char → Prop
  | nonneg (ds : List Char) : ds ≠ [] → (∀ d ∈ ds, d.isDigit = true) → SpellsInt (natVal ds) ds
  | neg (ds : List Char) : ds ≠ [] → (∀ d ∈ ds, d.isDigit = true) →
      SpellsInt (-(natVal ds : Int)) ('-' :: ds)

inductive SpellsI64 : I64OrFocused → List Char → Prop
  | i64 {n : I64} {s : List Char} : SpellsInt n.1 s → SpellsI64 (.i64 n) s
  | focused : SpellsI64 .focused "__focused__".toList

inductive SpellsShell : ShellTypeOrFocused → List Char → Prop
  | xdgShell : SpellsShell (.shellType .xdgShell) "\"xdg_shell\"".toList
  | xwayland : SpellsShell (.shellType .xwayland) "\"xwayland\"".toList
  | focused : SpellsShell .focused "__focused__".toList

/-- A key, an equals sign and a value, with blanks around the sign. -/
inductive SpellsField (name : String) (value : List Char) : List Char → Prop
  | mk {b₁ b₂ : List Char} : Blanks b₁ → Blanks b₂ →
      SpellsField name value (name.toList ++ (b₁ ++ ("=".toList ++ (b₂ ++ value))))

def andKeywords : List String := ["AND", "and", "&&"]
def orKeywords : List String := ["OR", "or", "||"]
def notKeywords : List String := ["NOT", "not", "!"]

/-- List elements, spelled by `R`, are separated by at least one blank. -/
inductive SpellsAll (R : Criterion E → List Char → Prop) :
    List (Criterion E) → List Char → Prop
  | nil : SpellsAll R [] []
  | one {c : Criterion E} {s : List Char} : R c s → SpellsAll R [c] s
  | cons {c d : Criterion E} {ds : List (Criterion E)} {s b t : List Char} : R c s →
      Blanks b → b ≠ [] → SpellsAll R (d :: ds) t →
      SpellsAll R (c :: d :: ds) (s ++ (b ++ t))

/-- The documented spellings of a query. -/
inductive Spells : Criterion E → List Char → Prop
  | and {cs : List (Criterion E)} {s b₁ b₂ b₃ : List Char} {kw : String} : kw ∈ andKeywords →
      Blanks b₁ → Blanks b₂ → Blanks b₃ → SpellsAll Spells cs s →
      Spells (.and cs) ("[".toList ++ (b₁ ++ (kw.toList ++ (b₂ ++ (s ++ (b₃ ++ "]".toList))))))
  | andOmitted {cs : List (Criterion E)} {s b₁ b₃ : List Char} :
      Blanks b₁ → Blanks b₃ → SpellsAll Spells cs s →
      Spells (.and cs) ("[".toList ++ (b₁ ++ (s ++ (b₃ ++ "]".toList))))
  | or {cs : List (Criterion E)} {s b₁ b₂ b₃ : List Char} {kw : String} : kw ∈ orKeywords →
      Blanks b₁ → Blanks b₂ → Blanks b₃ → SpellsAll Spells cs s →
      Spells (.or cs) ("[".toList ++ (b₁ ++ (kw.toList ++ (b₂ ++ (s ++ (b₃ ++ "]".toList))))))
  | not {c : Criterion E} {s b : List Char} {kw : String} : kw ∈ notKeywords → Blanks b →
      Spells c s → Spells (.not c) (kw.toList ++ (b ++ s))
  | tiling : Spells .tiling "tiling".toList
  | floating : Spells .floating "floating".toList
  | appId {v : RegexOrFocused E} {t s : List Char} : SpellsRegex v t →
      SpellsField "app_id" t s → Spells (.appId v) s
  | class_ {v : RegexOrFocused E} {t s : List Char} : SpellsRegex v t →
      SpellsField "class" t s → Spells (.class_ v) s
  | instance_ {v : RegexOrFocused E} {t s : List Char} : SpellsRegex v t →
      SpellsField "instance" t s → Spells (.instance_ v) s
  | appName {v : RegexOrFocused E} {t s : List Char} : SpellsRegex v t →
      SpellsField "app_name" t s → Spells (.appName v) s
  | title {v : RegexOrFocused E} {t s : List Char} : SpellsRegex v t →
      SpellsField "title" t s → Spells (.title v) s
  | workspace {v : RegexOrFocused E} {t s : List Char} : SpellsRegex v t →
      SpellsField "workspace" t s → Spells (.workspace v) s
  | conMark {rx : Regex E} {t s : List Char} : SpellsRegex (.regex rx) t →
      SpellsField "con_mark" t s → Spells (.conMark rx) s
  | conId {v : I64OrFocused} {t s : List Char} : SpellsI64 v t →
      SpellsField "con_id" t s → Spells (.conId v) s
  | pid {n : I32} {t s : List Char} : SpellsInt n.1 t →
      SpellsField "pid" t s → Spells (.pid n) s
  | shell {v : ShellTypeOrFocused} {t s : List Char} : SpellsShell v t →
      SpellsField "shell" t s → Spells (.shell v) s

/-! ## Blanks -/

theorem Blanks.append {b b' : List Char} (h : Blanks b) (h' : Blanks b') : Blanks (b ++ b') :=
  fun c hc => (List.mem_append.mp hc).elim (h c) (h' c)

/-- The input does not start with a blank. -/
def NoBlank (inp : List Char) : Prop := inp.takeWhile isBlank = []

theorem space_apply (inp : List Char) : space inp = some ((), inp.dropWhile isBlank) := rfl

theorem dropWhile_of_noBlank {inp : List Char} (h : NoBlank inp) :
    inp.dropWhile isBlank = inp := by
  have := List.takeWhile_append_dropWhile (p := isBlank) (l := inp)
  rwa [h, List.nil_append] at this

/-- Blanks are skipped up to the first character that is none. -/
theorem dropWhile_blanks {b inp : List Char} (hb : Blanks b) (h : NoBlank inp) :
    (b ++ inp).dropWhile isBlank = inp := by
  rw [List.dropWhile_append_of_pos hb, dropWhile_of_noBlank h]

theorem space_blanks {b inp : List Char} (hb : Blanks b) (h : NoBlank inp) :
    space (b ++ inp) = some ((), inp) := by
  rw [space_apply, dropWhile_blanks hb h]

/-- What a rule may leave of `rest`: all of it, or all but the blanks in front. -/
def Trims (rest left : List Char) : Prop := left = rest ∨ left = rest.dropWhile isBlank

/-- The blanks that are left make no difference to what skips them. -/
theorem Trims.dropWhile_eq {rest left : List Char} (h : Trims rest left) :
    left.dropWhile isBlank = rest.dropWhile isBlank := by
  rcases h with rfl | rfl
  · rfl
  · exact List.dropWhile_idempotent _ _

/-! ## Heads -/

/-- The keys of the simple criteria with their rules, in the order of the
grammar. -/
def table : List (String × Rule (Criterion E)) :=
  [("tiling", tiling), ("floating", floating), ("app_id", appId), ("class", class_),
    ("instance", instance_), ("app_name", appName), ("title", title), ("shell", shell),
    ("workspace", workspace), ("con_mark", conMark), ("con_id", conId), ("pid", pid)]

def keys : List String :=
  ["tiling", "floating", "app_id", "class", "instance", "app_name", "title", "shell",
    "workspace", "con_mark", "con_id", "pid"]

/-- The texts a criterion can start with. -/
def heads : List String := "[" :: notKeywords ++ keys

theorem table_keys : (table (E := E)).map Prod.fst = keys := rfl

/-- Every rule of the table starts with its key. -/
theorem table_none {e : String × Rule (Criterion E)} (he : e ∈ table) {inp : List Char}
    (h : lit e.1 inp = none) : e.2 inp = none := by
  simp only [table, List.mem_cons, List.not_mem_nil, or_false] at he
  rcases he with rfl | rfl | rfl | rfl | rfl | rfl | rfl | rfl | rfl | rfl | rfl | rfl <;>
    exact bind_of_none h

/-- The first rule of a list that matches. -/
def firstOf : List (String × Rule (Criterion E)) → Rule (Criterion E)
  | [] => fail
  | e :: es => choice e.2 (firstOf es)

/-- The alternatives as a table. -/
theorem simple_eq_firstOf (inp : List Char) :
    (simple : Rule (Criterion E)) inp = firstOf table inp := by
  have hlast : choice (pid (E := E)) fail = pid := by
    funext inp
    unfold choice
    cases h : pid (E := E) inp <;> simp [fail]
  simp only [firstOf, table, hlast]
  rfl

theorem firstOf_eq_none {es : List (String × Rule (Criterion E))} {inp : List Char}
    (h : ∀ e ∈ es, e.2 inp = none) : firstOf es inp = none := by
  induction es with
  | nil => rfl
  | cons e es ih =>
      rw [firstOf, choice_of_none (h e List.mem_cons_self)]
      exact ih fun e he => h e (List.mem_cons_of_mem _ he)

/-- Keys clash, so the rule for the key the input starts with is reached. -/
theorem firstOf_eq_some {es : List (String × Rule (Criterion E))} {key : String}
    {rule : Rule (Criterion E)} {rest : List Char} {r : Criterion E × List Char}
    (hstart : ∀ e ∈ es, ∀ inp, lit e.1 inp = none → e.2 inp = none)
    (hclash : (es.map Prod.fst).Pairwise Clash) (hmem : (key, rule) ∈ es)
    (h : rule (key.toList ++ rest) = some r) : firstOf es (key.toList ++ rest) = some r := by
  induction es with
  | nil => simp at hmem
  | cons e es ih =>
      rw [List.map_cons, List.pairwise_cons] at hclash
      rw [firstOf]
      rcases List.mem_cons.mp hmem with rfl | hmem
      · exact choice_of_some h
      · have hkey : Clash e.1 key := hclash.1 key (List.mem_map.mpr ⟨_, hmem, rfl⟩)
        rw [choice_of_none (hstart e List.mem_cons_self _ (hkey.lit_eq_none rest))]
        exact ih (fun e he => hstart e (List.mem_cons_of_mem _ he)) hclash.2 hmem

/-- None of the spellings of a keyword. -/
theorem keyword_eq_none {a b c : String} {inp : List Char} (ha : lit a inp = none)
    (hb : lit b inp = none) (hc : lit c inp = none) :
    choice (lit a) (choice (lit b) (lit c)) inp = none := by
  rw [choice_of_none ha, choice_of_none hb, hc]

/-- Without a bracket or a negation in front only a simple criterion is left. -/
theorem criterion_eq_simple {inp : List Char} (hbr : lit "[" inp = none)
    (hnot : ∀ k ∈ notKeywords, lit k inp = none) (fuel : Nat) :
    (criterion (fuel + 1) : Rule (Criterion E)) inp = simple inp := by
  have hand : and_ (criterion (E := E) fuel) inp = none := bind_of_none hbr
  have hor : or_ (criterion (E := E) fuel) inp = none := bind_of_none hbr
  have hneg : not_ (criterion (E := E) fuel) inp = none :=
    bind_of_none (keyword_eq_none (hnot _ (by decide)) (hnot _ (by decide)) (hnot _ (by decide)))
  rw [criterion]
  exact (choice_of_none hand).trans ((choice_of_none hor).trans (choice_of_none hneg))

/-- An input that starts with no head is no criterion. -/
theorem criterion_eq_none {inp : List Char} (h : ∀ k ∈ heads, lit k inp = none) (fuel : Nat) :
    (criterion fuel : Rule (Criterion E)) inp = none := by
  cases fuel with
  | zero => rfl
  | succ fuel =>
      rw [criterion_eq_simple (h _ (by decide)) (fun k hk => h k (by simp [heads, hk])),
        simple_eq_firstOf]
      refine firstOf_eq_none fun e he => table_none he (h _ ?_)
      have : e.1 ∈ keys := table_keys (E := E) ▸ List.mem_map.mpr ⟨e, he, rfl⟩
      simp [heads, this]

/-- An input that starts with a key is read by that key's rule. -/
theorem criterion_key {key : String} {rule : Rule (Criterion E)} (hmem : (key, rule) ∈ table)
    {rest : List Char} {r : Criterion E × List Char} (h : rule (key.toList ++ rest) = some r)
    (fuel : Nat) : (criterion (fuel + 1) : Rule (Criterion E)) (key.toList ++ rest) = some r := by
  have hkey : key ∈ keys := table_keys (E := E) ▸ List.mem_map.mpr ⟨_, hmem, rfl⟩
  have hbr : ∀ k ∈ keys, Clash "[" k := by decide
  have hnot : ∀ k ∈ keys, ∀ n ∈ notKeywords, Clash n k := by decide
  rw [criterion_eq_simple ((hbr key hkey).lit_eq_none rest)
    (fun n hn => (hnot key hkey n hn).lit_eq_none rest), simple_eq_firstOf]
  refine firstOf_eq_some (fun e he inp => table_none he) ?_ hmem h
  rw [table_keys]
  decide

/-! ## Values and simple criteria -/

/-- The input does not continue a number. -/
def NoDigit (inp : List Char) : Prop := inp.takeWhile Char.isDigit = []

theorem stringLiteral_quoted {s : String} (hs : '"' ∉ s.toList) (rest : List Char) :
    stringLiteral ('"' :: s.toList ++ ['"'] ++ rest) = some (s, rest) := by
  have hstar : star (· != '"') (s.toList ++ ("\"".toList ++ rest)) =
      some (s.toList, "\"".toList ++ rest) := by
    refine star_append (fun c hc => ?_) (by simp)
    simpa using fun e : c = '"' => hs (e ▸ hc)
  have hopen : lit "\"" ('"' :: s.toList ++ ['"'] ++ rest) =
      some ((), s.toList ++ ("\"".toList ++ rest)) := by
    simpa using lit_append "\"" (s.toList ++ ("\"".toList ++ rest))
  rw [stringLiteral, bind_of_some hopen, bind_of_some hstar, bind_of_some (lit_append _ _)]
  simp

/-- A regex is read back from its source. -/
theorem regexFromStr_source (rx : Regex E) : regexFromStr E rx.source = rx := by
  simp [regexFromStr, rx.valid]

/-- A value is read off its spelling. -/
theorem regexOrFocused_spells {v : RegexOrFocused E} {t : List Char} (h : SpellsRegex v t)
    (rest : List Char) : regexOrFocused (t ++ rest) = some (v, rest) := by
  cases h with
  | focused => exact choice_of_some (bind_of_some (lit_append _ _))
  | regex rx hq =>
      have hnone : (do lit "__focused__"; pure .focused : Rule (RegexOrFocused E))
          ('"' :: rx.source.toList ++ ['"'] ++ rest) = none := bind_of_none (by simp [lit, text])
      refine (choice_of_none hnone).trans ((bind_of_some (stringLiteral_quoted hq rest)).trans ?_)
      rw [regexFromStr_source, pure_apply]

/-- A number ends where the digits end. -/
theorem intLiteral_spells {n : Int} {t rest : List Char} (h : SpellsInt n t)
    (hrest : NoDigit rest) : intLiteral (t ++ rest) = some (n, rest) := by
  cases h with
  | nonneg _ hne hd =>
      have hsign : lit "-" (t ++ rest) = none := by
        cases t with
        | nil => exact absurd rfl hne
        | cons d ds =>
            have hdig := hd d List.mem_cons_self
            have : d ≠ '-' := by
              rintro rfl
              simp at hdig
            simp [lit, text, this.symm]
      rw [intLiteral, bind_of_some (opt_of_none hsign),
        bind_of_some (plus_append hne hd hrest)]
      simp
  | neg ds hne hd =>
      have hsign : lit "-" ('-' :: ds ++ rest) = some ((), ds ++ rest) := by
        simpa using lit_append "-" (ds ++ rest)
      rw [intLiteral, bind_of_some (opt_of_some hsign),
        bind_of_some (plus_append hne hd hrest)]
      simp

/-- A number begins with a sign or a digit. -/
theorem SpellsInt.head {n : Int} {t : List Char} (h : SpellsInt n t) :
    ∃ c u, t = c :: u ∧ (c = '-' ∨ c.isDigit = true) := by
  cases h with
  | nonneg _ hne hd =>
      cases t with
      | nil => exact absurd rfl hne
      | cons c u => exact ⟨c, u, rfl, .inr (hd c List.mem_cons_self)⟩
  | neg ds _ _ => exact ⟨'-', ds, rfl, .inl rfl⟩

theorem i32Literal_spells {n : I32} {t rest : List Char} (h : SpellsInt n.1 t)
    (hrest : NoDigit rest) : i32Literal (t ++ rest) = some (n, rest) := by
  simp only [i32Literal, mapOption, intLiteral_spells h hrest, dif_pos n.2]
  rfl

theorem i64Literal_spells {n : I64} {t rest : List Char} (h : SpellsInt n.1 t)
    (hrest : NoDigit rest) : i64Literal (t ++ rest) = some (n, rest) := by
  simp only [i64Literal, mapOption, intLiteral_spells h hrest, dif_pos n.2]
  rfl

theorem i64OrFocused_spells {v : I64OrFocused} {t rest : List Char} (h : SpellsI64 v t)
    (hrest : NoDigit rest) : i64OrFocused (t ++ rest) = some (v, rest) := by
  cases h with
  | focused => exact choice_of_some (bind_of_some (lit_append _ _))
  | @i64 n _ hn =>
      have hnone : (do lit "__focused__"; pure .focused : Rule I64OrFocused) (t ++ rest) =
          none := by
        obtain ⟨c, u, rfl, hc⟩ := hn.head
        have : c ≠ '_' := by
          rintro rfl
          simp at hc
        exact bind_of_none (by simp [lit, text, this.symm])
      exact (choice_of_none hnone).trans (bind_of_some (i64Literal_spells hn hrest))

theorem shellTypeOrFocused_spells {v : ShellTypeOrFocused} {t : List Char}
    (h : SpellsShell v t) (rest : List Char) :
    shellTypeOrFocused (t ++ rest) = some (v, rest) := by
  have hskip : ∀ {s k : String} {w : ShellTypeOrFocused}, Clash s k →
      (do lit s; pure w : Rule ShellTypeOrFocused) (k.toList ++ rest) = none :=
    fun hclash => bind_of_none (hclash.lit_eq_none rest)
  cases h with
  | xdgShell => exact choice_of_some (bind_of_some (lit_append _ _))
  | xwayland =>
      exact (choice_of_none (hskip (by decide))).trans
        (choice_of_some (bind_of_some (lit_append _ _)))
  | focused =>
      exact (choice_of_none (hskip (by decide))).trans
        ((choice_of_none (hskip (by decide))).trans (bind_of_some (lit_append _ _)))

/-- No value starts with a blank. -/
theorem SpellsRegex.noBlank {v : RegexOrFocused E} {t : List Char} (h : SpellsRegex v t)
    (rest : List Char) : NoBlank (t ++ rest) := by
  cases h <;> simp [NoBlank, isBlank]

theorem SpellsInt.noBlank {n : Int} {t : List Char} (h : SpellsInt n t) (rest : List Char) :
    NoBlank (t ++ rest) := by
  obtain ⟨c, u, rfl, hc⟩ := h.head
  have hblank : isBlank c = false := by
    unfold isBlank
    rcases hc with rfl | hc
    · decide
    · have h₁ : c ≠ ' ' := by rintro rfl; simp at hc
      have h₂ : c ≠ '\t' := by rintro rfl; simp at hc
      simp [h₁, h₂]
  simp [NoBlank, hblank]

theorem SpellsI64.noBlank {v : I64OrFocused} {t : List Char} (h : SpellsI64 v t)
    (rest : List Char) : NoBlank (t ++ rest) := by
  cases h with
  | i64 hn => exact hn.noBlank rest
  | focused => simp [NoBlank, isBlank]

theorem SpellsShell.noBlank {v : ShellTypeOrFocused} {t : List Char} (h : SpellsShell v t)
    (rest : List Char) : NoBlank (t ++ rest) := by
  cases h <;> simp [NoBlank, isBlank]

/-- A word of the table is read as the criterion it stands for. -/
theorem criterion_word (i : Nat) (word : String) (c : Criterion E)
    (hi : table[i]? = some (word, do lit word; pure c)) (rest : List Char) (fuel : Nat) :
    criterion (fuel + 1) (word.toList ++ rest) = some (c, rest) := by
  have hrule : (do lit word; pure c : Rule (Criterion E)) (word.toList ++ rest) =
      some (c, rest) := by
    rw [bind_of_some (lit_append _ _), pure_apply]
  exact criterion_key (List.mem_of_getElem? hi) hrule fuel

/-- A field of the table is read as a criterion, whatever the blanks around
the equals sign. -/
theorem criterion_field {α : Type} {name : String} {value : Rule α} {mk : α → Criterion E}
    {t s rest : List Char} {v : α} (i : Nat)
    (hi : table[i]? = some (name, keyValue name value mk)) (h : SpellsField name t s)
    (hblank : NoBlank (t ++ rest)) (hvalue : value (t ++ rest) = some (v, rest)) (fuel : Nat) :
    criterion (fuel + 1) (s ++ rest) = some (mk v, rest) := by
  cases h with
  | @mk b₁ b₂ hb₁ hb₂ =>
      have hsign : ∀ inp, NoBlank ("=".toList ++ inp) := fun inp => by simp [NoBlank, isBlank]
      have hparse : keyValue name value mk
          (name.toList ++ (b₁ ++ ("=".toList ++ (b₂ ++ (t ++ rest))))) = some (mk v, rest) := by
        rw [keyValue, bind_of_some (lit_append _ _), bind_of_some (space_blanks hb₁ (hsign _)),
          bind_of_some (lit_append _ _), bind_of_some (space_blanks hb₂ hblank),
          bind_of_some hvalue]
        rfl
      simpa only [List.append_assoc] using criterion_key (List.mem_of_getElem? hi) hparse fuel

/-! ## Lists and negations -/

/-- A field begins with its name. -/
theorem SpellsField.head {name : String} {t s : List Char} (h : SpellsField name t s) :
    ∃ u, s = name.toList ++ u := by
  obtain ⟨hb₁, hb₂⟩ := h
  exact ⟨_, rfl⟩

/-- Every spelling starts with a head. -/
theorem Spells.head {c : Criterion E} {s : List Char} (h : Spells c s) :
    ∃ k ∈ heads, ∃ u, s = k.toList ++ u := by
  have hfield : ∀ {name : String} {t : List Char}, name ∈ keys → SpellsField name t s →
      ∃ k ∈ heads, ∃ u, s = k.toList ++ u :=
    fun hk hf => ⟨_, by simp [heads, hk], hf.head⟩
  cases h with
  | and | andOmitted | or => exact ⟨"[", by decide, _, rfl⟩
  | not hkw _ _ => exact ⟨_, by simp [heads, hkw], _, rfl⟩
  | tiling => exact ⟨"tiling", by decide, [], by simp⟩
  | floating => exact ⟨"floating", by decide, [], by simp⟩
  | appId _ hf | class_ _ hf | instance_ _ hf | appName _ hf | title _ hf | workspace _ hf
  | conMark _ hf | conId _ hf | pid _ hf | shell _ hf => exact hfield (by decide) hf

/-- No spelling begins with a blank. -/
theorem Spells.noBlank {c : Criterion E} {s : List Char} (h : Spells c s) (rest : List Char) :
    NoBlank (s ++ rest) := by
  obtain ⟨k, hk, u, rfl⟩ := h.head
  have hheads : ∀ k ∈ heads, k.toList.head?.any (fun c => !isBlank c) = true := by decide
  have hhead := hheads k hk
  cases hkl : k.toList with
  | nil => simp [hkl] at hhead
  | cons d ds =>
      have hb : isBlank d = false := by simpa [hkl] using hhead
      simp [NoBlank, hb]

theorem noBlank_bracket (rest : List Char) : NoBlank ("]".toList ++ rest) := by
  simp [NoBlank, isBlank]

/-- A closing bracket begins no criterion, so a list ends there. -/
theorem criterion_bracket (fuel : Nat) (rest : List Char) :
    (criterion fuel : Rule (Criterion E)) ("]".toList ++ rest) = none := by
  have hclash : ∀ k ∈ heads, Clash k "]" := by decide
  exact criterion_eq_none (fun k hk => (hclash k hk).lit_eq_none rest) fuel

/-- One criterion at the front of the input is read by `p`. -/
def Reads (p : Rule (Criterion E)) (c : Criterion E) (s : List Char) : Prop :=
  ∀ rest, NoDigit rest → ∃ left, p (s ++ rest) = some (c, left) ∧ Trims rest left

theorem noDigit_blanks {b : List Char} (hb : Blanks b) (hne : b ≠ []) (rest : List Char) :
    NoDigit (b ++ rest) := by
  cases b with
  | nil => exact absurd rfl hne
  | cons c b =>
      have hc := hb c List.mem_cons_self
      have : c.isDigit = false := by
        simp only [isBlank, Bool.or_eq_true, beq_iff_eq] at hc
        rcases hc with rfl | rfl <;> decide
      simp [NoDigit, this]

/-- A number is not continued by the end of its list. -/
theorem noDigit_close {b : List Char} (hb : Blanks b) (rest : List Char) :
    NoDigit (b ++ ("]".toList ++ rest)) := by
  by_cases hne : b = []
  · simp [hne, NoDigit]
  · exact noDigit_blanks hb hne _

section lists

variable {p : Rule (Criterion E)} {cs : List (Criterion E)} {s b b₂ rest : List Char}

/-- A list that is not empty begins with its first element. -/
theorem SpellsAll.first {c : Criterion E} {ds : List (Criterion E)}
    (h : SpellsAll Spells (c :: ds) s) : ∃ t u, Spells c t ∧ s = t ++ u := by
  cases h with
  | one hc => exact ⟨s, [], hc, by simp⟩
  | cons hc _ _ _ => exact ⟨_, _, hc, rfl⟩

theorem SpellsAll.noBlank {c : Criterion E} {ds : List (Criterion E)}
    (h : SpellsAll Spells (c :: ds) s) (rest : List Char) : NoBlank (s ++ rest) := by
  obtain ⟨t, u, ht, rfl⟩ := h.first
  rw [List.append_assoc]
  exact ht.noBlank _

/-- The elements of a list are read one after the other; behind the last one
the bracket ends the repetition. -/
theorem SpellsAll.reads (hclose : ∀ rest, p ("]".toList ++ rest) = none)
    (hall : SpellsAll Spells cs s)
    (hp : ∀ c t, Spells c t → t.length ≤ s.length → Reads p c t) (hb : Blanks b)
    (rest : List Char) : ∀ c ds, cs = c :: ds → ∃ mid left,
      p (s ++ (b ++ ("]".toList ++ rest))) = some (c, mid) ∧
      (∀ n, ds.length ≤ n → sepRounds p space n mid = (ds, left)) ∧
      Trims (b ++ ("]".toList ++ rest)) left := by
  induction hall with
  | nil => simp
  | @one c s hc =>
      rintro c' ds ⟨rfl, rfl⟩
      obtain ⟨left, hread, htrim⟩ := hp c s hc (Nat.le_refl _) _ (noDigit_close hb rest)
      refine ⟨left, left, hread, fun n _ => ?_, htrim⟩
      cases n with
      | zero => rfl
      | succ n =>
          -- The next round would have to start at the closing bracket.
          have hspace : space left = some ((), "]".toList ++ rest) := by
            rw [space_apply, htrim.dropWhile_eq, dropWhile_blanks hb (noBlank_bracket rest)]
          have hstop : (do space; p : Rule (Criterion E)) left = none :=
            (bind_of_some hspace).trans (hclose rest)
          simp only [sepRounds, hstop]
  | @cons c d ds s b' t hc hb' hne hds ih =>
      rintro c' ds' ⟨rfl, rfl⟩
      obtain ⟨mid₂, left, hread₂, hrounds, htrim⟩ := ih
        (fun c u hu hlen => hp c u hu (by simp only [List.length_append]; omega)) d ds rfl
      obtain ⟨mid, hread, htrim₁⟩ := hp c s hc (by simp only [List.length_append]; omega)
        (b' ++ (t ++ (b ++ ("]".toList ++ rest)))) (noDigit_blanks hb' hne _)
      refine ⟨mid, left, by simpa only [List.append_assoc] using hread, fun n hn => ?_, htrim⟩
      obtain ⟨n, rfl⟩ : ∃ m, n = m + 1 := ⟨n - 1, by simp at hn; omega⟩
      have hnoblank : NoBlank (t ++ (b ++ ("]".toList ++ rest))) := hds.noBlank _
      have hspace : space mid = some ((), t ++ (b ++ ("]".toList ++ rest))) := by
        rw [space_apply, htrim₁.dropWhile_eq, dropWhile_blanks hb' hnoblank]
      -- One round reads the separator and the next element.
      have hround : (do space; p : Rule (Criterion E)) mid = some (d, mid₂) :=
        (bind_of_some hspace).trans hread₂
      simp only [sepRounds, hround, hrounds n (by simpa using hn)]

/-- The closing bracket of a list and the blanks behind it. -/
theorem close_bracket (l : List (Criterion E)) {left : List Char} (hb : Blanks b)
    (htrim : Trims (b ++ ("]".toList ++ rest)) left) :
    (do space; lit "]"; space; pure l : Rule (List (Criterion E))) left =
      some (l, rest.dropWhile isBlank) := by
  have hspace : space left = some ((), "]".toList ++ rest) := by
    rw [space_apply, htrim.dropWhile_eq, dropWhile_blanks hb (noBlank_bracket rest)]
  exact (bind_of_some hspace).trans ((bind_of_some (lit_append _ _)).trans
    (bind_of_some (space_apply rest)))

/-- The elements are read one after the other, up to the closing bracket. -/
theorem listRest_spells (hcons : Consumes p) (hclose : ∀ rest, p ("]".toList ++ rest) = none)
    (hall : SpellsAll Spells cs s)
    (hp : ∀ c t, Spells c t → t.length ≤ s.length → Reads p c t) (hb₂ : Blanks b₂)
    (hb : Blanks b) :
    listRest p (b₂ ++ (s ++ (b ++ ("]".toList ++ rest)))) =
      some (cs, rest.dropWhile isBlank) := by
  cases cs with
  | nil =>
      cases hall
      have hspace : space (b₂ ++ ([] ++ (b ++ ("]".toList ++ rest)))) =
          some ((), "]".toList ++ rest) := by
        simpa only [List.append_assoc, List.nil_append] using
          space_blanks (hb₂.append hb) (noBlank_bracket rest)
      have hsep : sepBy p space ("]".toList ++ rest) = some ([], "]".toList ++ rest) := by
        simp only [sepBy, hclose rest]
      rw [listRest, bind_of_some hspace, bind_of_some hsep]
      exact close_bracket [] (b := []) (by simp [Blanks]) (.inl rfl)
  | cons c ds =>
      obtain ⟨mid, left, hread, hrounds, htrim⟩ := hall.reads hclose hp hb rest c ds rfl
      have hnoblank : NoBlank (s ++ (b ++ ("]".toList ++ rest))) := hall.noBlank _
      have hsep : sepBy p space (s ++ (b ++ ("]".toList ++ rest))) = some (c :: ds, left) := by
        -- The bound on the rounds is the length of the input, which may be less than the
        -- number of elements known here.
        have hbound : sepRounds p space mid.length mid = (ds, left) := by
          rw [sepRounds_eq hcons nonGrowing_space (Nat.le_refl _)
            (Nat.le_max_left mid.length ds.length)]
          exact hrounds _ (Nat.le_max_right _ _)
        simp only [sepBy, hread, hbound]
      rw [listRest, bind_of_some (space_blanks hb₂ hnoblank), bind_of_some hsep]
      exact close_bracket (c :: ds) hb htrim

end lists

/-- One of three keywords that clash pairwise. -/
theorem keyword_eq_some {a b c kw : String} (hab : Clash a b) (hac : Clash a c)
    (hbc : Clash b c) (hkw : kw ∈ [a, b, c]) (rest : List Char) :
    choice (lit a) (choice (lit b) (lit c)) (kw.toList ++ rest) = some ((), rest) := by
  simp only [List.mem_cons, List.not_mem_nil, or_false] at hkw
  rcases hkw with rfl | rfl | rfl
  · exact choice_of_some (lit_append _ _)
  · rw [choice_of_none (hab.lit_eq_none rest)]
    exact choice_of_some (lit_append _ _)
  · rw [choice_of_none (hac.lit_eq_none rest), choice_of_none (hbc.lit_eq_none rest),
      lit_append]

theorem noBlank_keyword (kw : String) (h : kw ∈ andKeywords ++ orKeywords ++ notKeywords)
    (rest : List Char) : NoBlank (kw.toList ++ rest) := by
  have : ∀ k ∈ andKeywords ++ orKeywords ++ notKeywords,
      k.toList ≠ [] ∧ k.toList.takeWhile isBlank = [] := by decide
  obtain ⟨hne, hblank⟩ := this kw h
  cases hkl : kw.toList with
  | nil => exact absurd hkl hne
  | cons d ds =>
      rw [hkl] at hblank
      have : isBlank d = false := by
        by_contra hd
        simp [List.takeWhile_cons, hd] at hblank
      simp [NoBlank, this]

/-! ## The combinators -/

section combinators

variable {p : Rule (Criterion E)} {cs : List (Criterion E)} {s b₁ b₂ b₃ : List Char}
  {kw : String}

/-- A list with its keyword. -/
theorem and_spells (hcons : Consumes p) (hclose : ∀ rest, p ("]".toList ++ rest) = none)
    (hkw : kw ∈ andKeywords) (hb₁ : Blanks b₁) (hb₂ : Blanks b₂) (hb₃ : Blanks b₃)
    (hall : SpellsAll Spells cs s)
    (hp : ∀ c t, Spells c t → t.length ≤ s.length → Reads p c t) (rest : List Char) :
    and_ p ("[".toList ++ (b₁ ++ (kw.toList ++ (b₂ ++ (s ++ (b₃ ++ ("]".toList ++ rest))))))) =
      some (.and cs, rest.dropWhile isBlank) := by
  rw [and_, bind_of_some (lit_append _ _),
    bind_of_some (space_blanks hb₁ (noBlank_keyword kw (by simp [hkw]) _)),
    bind_of_some (opt_of_some (keyword_eq_some (by decide) (by decide) (by decide) hkw _)),
    bind_of_some (listRest_spells hcons hclose hall hp hb₂ hb₃)]
  rfl

/-- No element begins like the keyword. -/
theorem andKeyword_eq_none {k : String} (hk : k ∈ "]" :: heads ++ orKeywords)
    (rest : List Char) :
    choice (lit "AND") (choice (lit "and") (lit "&&")) (k.toList ++ rest) = none := by
  have hclash : ∀ k ∈ "]" :: heads ++ orKeywords,
      Clash "AND" k ∧ Clash "and" k ∧ Clash "&&" k := by decide
  obtain ⟨h₁, h₂, h₃⟩ := hclash k hk
  exact keyword_eq_none (h₁.lit_eq_none rest) (h₂.lit_eq_none rest) (h₃.lit_eq_none rest)

/-- A list without a keyword is an `and`. -/
theorem andOmitted_spells (hcons : Consumes p) (hclose : ∀ rest, p ("]".toList ++ rest) = none)
    (hb₁ : Blanks b₁) (hb₃ : Blanks b₃) (hall : SpellsAll Spells cs s)
    (hp : ∀ c t, Spells c t → t.length ≤ s.length → Reads p c t) (rest : List Char) :
    and_ p ("[".toList ++ (b₁ ++ (s ++ (b₃ ++ ("]".toList ++ rest))))) =
      some (.and cs, rest.dropWhile isBlank) := by
  have hnil : Blanks ([] : List Char) := by simp [Blanks]
  rw [and_, bind_of_some (lit_append _ _)]
  cases cs with
  | nil =>
      cases hall
      have hspace : space (b₁ ++ ([] ++ (b₃ ++ ("]".toList ++ rest)))) =
          some ((), "]".toList ++ rest) := by
        simpa only [List.append_assoc, List.nil_append] using
          space_blanks (hb₁.append hb₃) (noBlank_bracket rest)
      have hlist : listRest p ("]".toList ++ rest) = some ([], rest.dropWhile isBlank) :=
        listRest_spells hcons hclose SpellsAll.nil hp hnil hnil
      rw [bind_of_some hspace, bind_of_some (opt_of_none (andKeyword_eq_none (by decide) rest)),
        bind_of_some hlist]
      rfl
  | cons c ds =>
      -- The keyword is missed, since the first element begins otherwise.
      have hopt : opt (choice (lit "AND") (choice (lit "and") (lit "&&")))
          (s ++ (b₃ ++ ("]".toList ++ rest))) =
            some (none, [] ++ (s ++ (b₃ ++ ("]".toList ++ rest)))) := by
        obtain ⟨t, u, ht, rfl⟩ := hall.first
        obtain ⟨k, hk, v, rfl⟩ := ht.head
        rw [List.append_assoc, List.append_assoc]
        exact opt_of_none (andKeyword_eq_none (by simp [hk]) _)
      rw [bind_of_some (space_blanks hb₁ (hall.noBlank _)), bind_of_some hopt,
        bind_of_some (listRest_spells hcons hclose hall hp hnil hb₃)]
      rfl

/-- A list with an `or` is not taken for an `and` without keyword: no criterion
starts like the keyword, and neither does the closing bracket. -/
theorem and_eq_none_of_or (fuel : Nat) (hkw : kw ∈ orKeywords) (hb₁ : Blanks b₁)
    (rest : List Char) :
    and_ (criterion (E := E) fuel) ("[".toList ++ (b₁ ++ (kw.toList ++ rest))) = none := by
  have hnoblank := noBlank_keyword kw (by simp [hkw]) rest
  have hclash : ∀ k ∈ heads, ∀ o ∈ orKeywords, Clash k o := by decide
  have hbracket : ∀ o ∈ orKeywords, Clash "]" o := by decide
  have hnone : (criterion fuel : Rule (Criterion E)) (kw.toList ++ rest) = none :=
    criterion_eq_none (fun k hk => (hclash k hk kw hkw).lit_eq_none rest) fuel
  have hspace : space (kw.toList ++ rest) = some ((), kw.toList ++ rest) := by
    rw [space_apply, dropWhile_of_noBlank hnoblank]
  have hsep : sepBy (criterion (E := E) fuel) space (kw.toList ++ rest) =
      some ([], kw.toList ++ rest) := by
    simp only [sepBy, hnone]
  have hlist : listRest (criterion (E := E) fuel) (kw.toList ++ rest) = none := by
    rw [listRest, bind_of_some hspace, bind_of_some hsep, bind_of_some hspace]
    exact bind_of_none ((hbracket kw hkw).lit_eq_none rest)
  rw [and_, bind_of_some (lit_append _ _), bind_of_some (space_blanks hb₁ hnoblank),
    bind_of_some (opt_of_none (andKeyword_eq_none (by simp [hkw]) rest))]
  exact bind_of_none hlist

theorem or_spells (hcons : Consumes p) (hclose : ∀ rest, p ("]".toList ++ rest) = none)
    (hkw : kw ∈ orKeywords) (hb₁ : Blanks b₁) (hb₂ : Blanks b₂) (hb₃ : Blanks b₃)
    (hall : SpellsAll Spells cs s)
    (hp : ∀ c t, Spells c t → t.length ≤ s.length → Reads p c t) (rest : List Char) :
    or_ p ("[".toList ++ (b₁ ++ (kw.toList ++ (b₂ ++ (s ++ (b₃ ++ ("]".toList ++ rest))))))) =
      some (.or cs, rest.dropWhile isBlank) := by
  rw [or_, bind_of_some (lit_append _ _),
    bind_of_some (space_blanks hb₁ (noBlank_keyword kw (by simp [hkw]) _)),
    bind_of_some (keyword_eq_some (by decide) (by decide) (by decide) hkw _),
    bind_of_some (listRest_spells hcons hclose hall hp hb₂ hb₃)]
  rfl

/-- The operand is read, and the blanks behind it. -/
theorem not_spells {c : Criterion E} {rest : List Char} (hkw : kw ∈ notKeywords)
    (hb₁ : Blanks b₁) (hc : Spells c s) (hp : Reads p c s) (hrest : NoDigit rest) :
    not_ p (kw.toList ++ (b₁ ++ (s ++ rest))) = some (.not c, rest.dropWhile isBlank) := by
  obtain ⟨left, hread, htrim⟩ := hp rest hrest
  rw [not_, bind_of_some (keyword_eq_some (by decide) (by decide) (by decide) hkw _),
    bind_of_some (space_blanks hb₁ (hc.noBlank rest)), bind_of_some hread,
    bind_of_some (space_apply left), htrim.dropWhile_eq]
  rfl

end combinators

/-! ## The round trip -/

theorem criterion_and {fuel : Nat} {inp : List Char} {r : Criterion E × List Char}
    (h : and_ (criterion fuel) inp = some r) : criterion (fuel + 1) inp = some r := by
  rw [criterion]
  exact choice_of_some h

/-- A text that is no `and` is tried as an `or`. -/
theorem criterion_or {fuel : Nat} {inp : List Char} {r : Criterion E × List Char}
    (hand : and_ (criterion (E := E) fuel) inp = none)
    (h : or_ (criterion fuel) inp = some r) : criterion (fuel + 1) inp = some r := by
  rw [criterion]
  exact (choice_of_none hand).trans (choice_of_some h)

theorem criterion_not {fuel : Nat} {inp : List Char} {r : Criterion E × List Char}
    (hbr : lit "[" inp = none) (h : not_ (criterion fuel) inp = some r) :
    criterion (fuel + 1) inp = some r := by
  have hand : and_ (criterion (E := E) fuel) inp = none := bind_of_none hbr
  have hor : or_ (criterion (E := E) fuel) inp = none := bind_of_none hbr
  rw [criterion]
  exact (choice_of_none hand).trans ((choice_of_none hor).trans (choice_of_some h))

/-- A field is read by its own entry of the table, since the names differ. -/
theorem criterion_regexField {name : String} {mk : RegexOrFocused E → Criterion E}
    {v : RegexOrFocused E} {t s : List Char} (i : Nat)
    (hi : table[i]? = some (name, keyValue name regexOrFocused mk)) (hv : SpellsRegex v t)
    (hf : SpellsField name t s) (rest : List Char) (fuel : Nat) :
    criterion (fuel + 1) (s ++ rest) = some (mk v, rest) :=
  criterion_field i hi hf (hv.noBlank rest) (regexOrFocused_spells hv rest) fuel

/-- The grammar reads every spelling, given fuel for its length. -/
theorem criterion_reads (fuel : Nat) : ∀ (c : Criterion E) (s : List Char), Spells c s →
    s.length < fuel → Reads (criterion fuel) c s := by
  induction fuel with
  | zero => intro c s _ h; omega
  | succ fuel ih =>
      intro c s h hlen rest hrest
      have hcons := consumes_criterion (E := E) fuel
      have hclose := criterion_bracket (E := E) fuel
      -- Lists and `not` recurse with less fuel on a shorter text; a field is found in the
      -- table at its own index.
      cases h with
      | @and cs s b₁ b₂ b₃ kw hkw hb₁ hb₂ hb₃ hall =>
          refine ⟨_, criterion_and ?_, .inr rfl⟩
          simp only [List.append_assoc]
          exact and_spells hcons hclose hkw hb₁ hb₂ hb₃ hall
            (fun c t ht htl => ih c t ht (by simp at hlen; omega)) rest
      | @andOmitted cs s b₁ b₃ hb₁ hb₃ hall =>
          refine ⟨_, criterion_and ?_, .inr rfl⟩
          simp only [List.append_assoc]
          exact andOmitted_spells hcons hclose hb₁ hb₃ hall
            (fun c t ht htl => ih c t ht (by simp at hlen; omega)) rest
      | @or cs s b₁ b₂ b₃ kw hkw hb₁ hb₂ hb₃ hall =>
          simp only [List.append_assoc]
          exact ⟨_, criterion_or (and_eq_none_of_or fuel hkw hb₁ _)
            (or_spells hcons hclose hkw hb₁ hb₂ hb₃ hall
              (fun c t ht htl => ih c t ht (by simp at hlen; omega)) rest), .inr rfl⟩
      | @not c s b kw hkw hb hc =>
          have hbr : ∀ k ∈ notKeywords, Clash "[" k := by decide
          have hne : ∀ k ∈ notKeywords, k.toList ≠ [] := by decide
          have hpos := List.length_pos_iff.mpr (hne kw hkw)
          have hs := ih c s hc (by simp at hlen; omega)
          simp only [List.append_assoc]
          exact ⟨_, criterion_not ((hbr kw hkw).lit_eq_none _) (not_spells hkw hb hc hs hrest),
            .inr rfl⟩
      | tiling =>
          exact ⟨rest, criterion_word 0 "tiling" .tiling rfl rest fuel, .inl rfl⟩
      | floating =>
          exact ⟨rest, criterion_word 1 "floating" .floating rfl rest fuel, .inl rfl⟩
      | appId hv hf => exact ⟨rest, criterion_regexField 2 rfl hv hf rest fuel, .inl rfl⟩
      | class_ hv hf => exact ⟨rest, criterion_regexField 3 rfl hv hf rest fuel, .inl rfl⟩
      | instance_ hv hf => exact ⟨rest, criterion_regexField 4 rfl hv hf rest fuel, .inl rfl⟩
      | appName hv hf => exact ⟨rest, criterion_regexField 5 rfl hv hf rest fuel, .inl rfl⟩
      | title hv hf => exact ⟨rest, criterion_regexField 6 rfl hv hf rest fuel, .inl rfl⟩
      | workspace hv hf => exact ⟨rest, criterion_regexField 8 rfl hv hf rest fuel, .inl rfl⟩
      | @conMark rx t s hv hf =>
          have hq : stringLiteral (t ++ rest) = some (rx.source, rest) := by
            cases hv with
            | regex _ hq => exact stringLiteral_quoted hq rest
          have := criterion_field (E := E) 9 rfl hf (hv.noBlank rest) hq fuel
          exact ⟨rest, by rw [this, regexFromStr_source], .inl rfl⟩
      | conId hv hf =>
          exact ⟨rest, criterion_field 10 rfl hf (hv.noBlank rest)
            (i64OrFocused_spells hv hrest) fuel, .inl rfl⟩
      | pid hv hf =>
          exact ⟨rest, criterion_field 11 rfl hf (hv.noBlank rest)
            (i32Literal_spells hv hrest) fuel, .inl rfl⟩
      | shell hv hf =>
          exact ⟨rest, criterion_field 7 rfl hf (hv.noBlank rest)
            (shellTypeOrFocused_spells hv rest) fuel, .inl rfl⟩

/-- Every spelling is read as what it spells. -/
theorem parse_of_spells {c : Criterion E} {s : List Char} (h : Spells c s) :
    parse s = some c := by
  obtain ⟨left, hread, htrim⟩ := criterion_reads (s.length + 1) c s h (Nat.lt_succ_self _) []
    (by simp [NoDigit])
  have hleft : left = [] := by
    rcases htrim with rfl | rfl <;> rfl
  have hspace : space s = some ((), s) := by
    have := dropWhile_of_noBlank (h.noBlank [])
    rw [List.append_nil] at this
    rw [space_apply, this]
  rw [List.append_nil, hleft] at hread
  have hrule : (do space; criterion (s.length + 1) : Rule (Criterion E)) s = some (c, []) :=
    (bind_of_some hspace).trans hread
  simp only [parse, hrule]

/-- **Criteria round trip.** Every documented spelling of a query is accepted
and read as exactly that query; so no text spells two queries. -/
theorem parse_spelling (c : Criterion E) (text : String) (h : Spells c text.toList) :
    parseCriteria text = some c ∧ ∀ c', Spells c' text.toList → c' = c := by
  have hparse := parse_of_spells h
  refine ⟨hparse, fun c' h' => ?_⟩
  have := parse_of_spells h'
  rw [hparse] at this
  exact (Option.some.inj this).symm

/-- A nested query in mixed spellings: a list without keyword that holds an
upper-case `or` over a negated number and a regex. -/
theorem parse_spelling_nested :
    let E : RegexEngine := ⟨fun _ => true, fun p s => p == s, rfl⟩
    let c : Criterion E := .and [.or [.not (.conId (.i64 ⟨-17, by decide⟩)),
      .appName (.regex ⟨"foot", rfl⟩)], .tiling]
    Spells c "[ [OR !con_id = -017\tapp_name=\"foot\" ]  tiling]".toList ∧
      parseCriteria "[ [OR !con_id = -017\tapp_name=\"foot\" ]  tiling]" = some c := by
  intro E c
  have hblank : Blanks [' '] := by decide
  have hnone : Blanks [] := by decide
  have hid := Spells.conId (E := E) (.i64 (n := ⟨-17, by decide⟩)
    (.neg ['0', '1', '7'] (by decide) (by simp))) (.mk hblank hblank)
  have hnot := @Spells.not E _ _ [] "!" (by decide) hnone hid
  have hname := Spells.appName (E := E) (.regex ⟨"foot", rfl⟩ (by decide)) (.mk hnone hnone)
  have hor := @Spells.or E _ _ [] [' '] [' '] "OR" (by decide) hnone hblank hblank
    (.cons (b := ['\t']) hnot (by decide) (by decide) (.one hname))
  have hand := @Spells.andOmitted E _ _ [' '] [] hblank hnone
    (.cons (b := [' ', ' ']) hor (by decide) (by decide) (.one .tiling))
  have hspells : Spells c "[ [OR !con_id = -017\tapp_name=\"foot\" ]  tiling]".toList := by
    simpa using hand
  exact ⟨hspells, (parse_spelling c _ hspells).1⟩

end Swayr.Theorems.CriteriaSpelling
