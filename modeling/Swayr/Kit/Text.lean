import Mathlib.Data.List.Infix
import Mathlib.Data.Nat.Notation

/-!
# Texts

Texts are lists of characters. Replacing works from left to right and never
looks into what it has put in: a *matcher* says what it takes off the front of
the text and what comes in its place. What comes in its place may also be missing,
and then there is no result (`tryReplaceAll`). Positions that count bytes are kept apart
from those that count characters; cutting a text at a byte position asks for a
proof that a character ends there.
-/

namespace Kit.Text

/-! ## Replacing -/

section replacing

variable {α : Type*}

/-- What a pattern finds at the front of a text: how many characters it takes,
and what comes in their place. -/
abbrev Matcher (α : Type*) := List α → Option (ℕ × List α)

/-- Replace every occurrence, the first `skip` characters belonging to an
occurrence already replaced. -/
def replaceFrom (m : Matcher α) : ℕ → List α → List α
  | _, [] => []
  | skip + 1, _ :: cs => replaceFrom m skip cs
  | 0, c :: cs =>
      match m (c :: cs) with
      | some (n, new) => new ++ replaceFrom m (n - 1) cs
      | none => c :: replaceFrom m 0 cs

def replaceAll (m : Matcher α) (s : List α) : List α := replaceFrom m 0 s

variable {m : Matcher α}

/-- Characters to skip are characters that have been replaced. -/
theorem replaceFrom_eq (skip : ℕ) (s : List α) :
    replaceFrom m skip s = replaceAll m (s.drop skip) := by
  induction s generalizing skip with
  | nil => cases skip <;> simp [replaceFrom, replaceAll]
  | cons c cs ih =>
      cases skip with
      | zero => rfl
      | succ skip => simpa [replaceFrom] using ih skip

@[simp] theorem replaceAll_nil : replaceAll m [] = [] := rfl

theorem replaceAll_of_none {c : α} {cs : List α} (h : m (c :: cs) = none) :
    replaceAll m (c :: cs) = c :: replaceAll m cs := by
  rw [replaceAll, replaceFrom, h]
  rfl

/-- A match is replaced, and the search goes on behind it. -/
theorem replaceAll_of_some {c : α} {cs new : List α} {n : ℕ}
    (h : m (c :: cs) = some (n + 1, new)) :
    replaceAll m (c :: cs) = new ++ replaceAll m (cs.drop n) := by
  rw [replaceAll, replaceFrom, h]
  simp [replaceFrom_eq]

/-- A stretch at which the pattern does not occur is kept. -/
theorem replaceAll_append_of_none {s t : List α}
    (h : ∀ c u, c :: u <:+ s → m (c :: u ++ t) = none) :
    replaceAll m (s ++ t) = s ++ replaceAll m t := by
  induction s with
  | nil => rfl
  | cons c s ih =>
      have hc : m (c :: (s ++ t)) = none := h c s List.suffix_rfl
      rw [List.cons_append, replaceAll_of_none hc,
        ih fun d u hu => h d u (hu.trans (List.suffix_cons c s)), List.cons_append]

/-- If no occurrence that begins in `s` reaches beyond `s`, what follows `s` is
replaced as if it stood alone. -/
theorem exists_replaceAll_append {s t : List α}
    (h : ∀ c u, c :: u <:+ s → ∀ n new, m (c :: u ++ t) = some (n, new) →
      0 < n ∧ n ≤ u.length + 1) :
    ∃ p, replaceAll m (s ++ t) = p ++ replaceAll m t := by
  induction hk : s.length using Nat.strongRecOn generalizing s with
  | ind k ih =>
      subst hk
      cases s with
      | nil => exact ⟨[], rfl⟩
      | cons c s =>
          rw [List.cons_append]
          -- A match that begins in `s` ends in `s`, so the rest of `s` is still in front of `t`.
          cases hm : m (c :: (s ++ t)) with
          | none =>
              obtain ⟨p, hp⟩ := ih s.length (by simp) (fun d u hu =>
                h d u (hu.trans (List.suffix_cons c s))) rfl
              exact ⟨c :: p, by rw [replaceAll_of_none hm, hp, List.cons_append]⟩
          | some r =>
              obtain ⟨n, new⟩ := r
              obtain ⟨hpos, hle⟩ := h c s List.suffix_rfl n new hm
              obtain ⟨n, rfl⟩ := Nat.exists_eq_add_of_lt hpos
              rw [Nat.zero_add] at hm hle
              have hshort : (s.drop n).length < (c :: s).length := by
                simp only [List.length_drop, List.length_cons]
                omega
              obtain ⟨p, hp⟩ := ih (s.drop n).length hshort (fun d u hu =>
                h d u (hu.trans ((List.drop_suffix n s).trans (List.suffix_cons c s)))) rfl
              refine ⟨new ++ p, ?_⟩
              rw [replaceAll_of_some hm, List.drop_append_of_le_length (by omega), hp,
                List.append_assoc]

/-- What comes out consists of what was there and of what was put in. -/
theorem forall_mem_replaceAll {P : α → Prop} {s : List α} (hs : ∀ x ∈ s, P x)
    (hnew : ∀ u, u <:+ s → ∀ n new, m u = some (n, new) → ∀ x ∈ new, P x) :
    ∀ x ∈ replaceAll m s, P x := by
  suffices hfrom : ∀ skip, ∀ x ∈ replaceFrom m skip s, P x from hfrom 0
  induction s with
  | nil => intro skip; cases skip <;> simp [replaceFrom]
  | cons c s ih =>
      have ih := ih (fun x hx => hs x (List.mem_cons_of_mem c hx))
        (fun u hu => hnew u (hu.trans (List.suffix_cons c s)))
      intro skip
      -- Characters inside a match are skipped; elsewhere a match or the character itself.
      cases skip with
      | succ skip => exact ih skip
      | zero =>
          rw [replaceFrom]
          split
          · rename_i n new hm
            intro x hx
            rcases List.mem_append.mp hx with hx | hx
            · exact hnew _ List.suffix_rfl n new hm x hx
            · exact ih _ x hx
          · intro x hx
            rcases List.mem_cons.mp hx with rfl | hx
            · exact hs x List.mem_cons_self
            · exact ih 0 x hx

/-- `str::replace` with one character as the pattern. -/
def replaceChar [DecidableEq α] (c : α) (new : List α) (s : List α) : List α :=
  s.flatMap fun x => if x = c then new else [x]

/-- An occurrence of the non-empty text `pat`. -/
def literal [BEq α] (pat new : List α) : Matcher α := fun s =>
  if pat.isPrefixOf s then some (pat.length, new) else none

/-- `str::replace` with a non-empty text as the pattern. -/
def replaceText [BEq α] (pat new s : List α) : List α := replaceAll (literal pat new) s

section replaceText

variable [BEq α] [LawfulBEq α] {pat new s t : List α}

/-- What a literal match says about the text. -/
theorem literal_eq_some {u : List α} {n : ℕ} {r : List α} (h : literal pat new u = some (n, r)) :
    pat <+: u ∧ n = pat.length ∧ r = new := by
  unfold literal at h
  split at h
  · rename_i hpat
    obtain ⟨rfl, rfl⟩ := Prod.mk.inj (Option.some.inj h)
    exact ⟨List.isPrefixOf_iff_prefix.mp hpat, rfl, rfl⟩
  · simp at h

theorem literal_eq_none {u : List α} (h : ¬ pat <+: u) : literal pat new u = none := by
  rw [literal, if_neg fun hpat => h (List.isPrefixOf_iff_prefix.mp hpat)]

/-- The pattern does not occur. -/
theorem replaceText_eq_self (h : ¬ pat <:+: s) : replaceText pat new s = s := by
  have := replaceAll_append_of_none (m := literal pat new) (s := s) (t := []) fun c u hu =>
    literal_eq_none fun hpat => h ((List.append_nil (c :: u) ▸ hpat).isInfix.trans hu.isInfix)
  simpa [replaceText] using this

/-- The pattern cannot begin where its first character does not occur. -/
theorem replaceText_append_of_not_mem {c : α} (hpat : pat.head? = some c) (h : c ∉ s) :
    replaceText pat new (s ++ t) = s ++ replaceText pat new t := by
  obtain ⟨cs, rfl⟩ := List.head?_eq_some_iff.mp hpat
  refine replaceAll_append_of_none fun d u hu => literal_eq_none fun hpre => h ?_
  obtain ⟨rest, hrest⟩ := hpre
  obtain rfl : c = d := (List.cons.inj hrest).1
  exact hu.subset List.mem_cons_self

/-- A pattern at the front is replaced. -/
theorem replaceText_append_self (hpat : pat ≠ []) :
    replaceText pat new (pat ++ t) = new ++ replaceText pat new t := by
  obtain ⟨c, cs, rfl⟩ := List.exists_cons_of_ne_nil hpat
  have hm : literal (c :: cs) new (c :: (cs ++ t)) = some (cs.length + 1, new) := by
    rw [literal, if_pos (List.isPrefixOf_iff_prefix.mpr ⟨t, by simp⟩), List.length_cons]
  rw [replaceText, List.cons_append, replaceAll_of_some hm, List.drop_left]
  rfl

/-- No occurrence reaches across a character that is not in the pattern. -/
theorem exists_replaceText_append {c : α} (ht : t.head? = some c) (hpat : pat ≠ [])
    (hc : c ∉ pat) : ∃ p, replaceText pat new (s ++ t) = p ++ replaceText pat new t := by
  obtain ⟨t, rfl⟩ := List.head?_eq_some_iff.mp ht
  refine exists_replaceAll_append fun d u hu n r hm => ?_
  obtain ⟨hpre, rfl, -⟩ := literal_eq_some hm
  refine ⟨List.length_pos_iff.mpr hpat, ?_⟩
  by_contra hlong
  have hin : (d :: u ++ [c]) <+: pat := by
    have hfront : d :: u ++ [c] <+: d :: u ++ c :: t := ⟨t, by simp⟩
    refine List.prefix_of_prefix_length_le hfront hpre ?_
    simp only [List.length_append, List.length_cons, List.length_nil]
    omega
  exact hc (hin.subset (by simp))

end replaceText

/-! ## Replacements that can fail -/

section failing

variable {β γ : Type*}

/-- What a pattern finds in a text, from left to right; the first `skip` characters
belong to an occurrence already found. -/
def findsFrom (m : List α → Option (ℕ × β)) : ℕ → List α → List β
  | _, [] => []
  | skip + 1, _ :: cs => findsFrom m skip cs
  | 0, c :: cs =>
      match m (c :: cs) with
      | some (n, b) => b :: findsFrom m (n - 1) cs
      | none => findsFrom m 0 cs

/-- What is made of the matches does not change where they are. -/
theorem findsFrom_map (m : List α → Option (ℕ × β)) (f : β → γ) (skip : ℕ) (s : List α) :
    findsFrom (fun u => (m u).map fun r => (r.1, f r.2)) skip s = (findsFrom m skip s).map f := by
  induction s generalizing skip with
  | nil => cases skip <;> rfl
  | cons c s ih =>
      cases skip with
      | succ skip => exact ih skip
      | zero =>
          unfold findsFrom
          cases m (c :: s) with
          | none => exact ih 0
          | some r => exact congrArg _ (ih (r.1 - 1))

/-- A pattern for whose occurrences there may be nothing to come in their place. -/
abbrev TryMatcher (α : Type*) := List α → Option (ℕ × Option (List α))

/-- The pattern with nothing in the place of these. -/
def TryMatcher.orNil (m : TryMatcher α) : Matcher α := fun s =>
  (m s).map fun r => (r.1, r.2.getD [])

def tryReplaceFrom (m : TryMatcher α) : ℕ → List α → Option (List α)
  | _, [] => some []
  | skip + 1, _ :: cs => tryReplaceFrom m skip cs
  | 0, c :: cs =>
      match m (c :: cs) with
      | some (n, new) => new.bind fun new => (tryReplaceFrom m (n - 1) cs).map (new ++ ·)
      | none => (tryReplaceFrom m 0 cs).map (c :: ·)

/-- Replace every occurrence; there is no result if one of them cannot be replaced. -/
def tryReplaceAll (m : TryMatcher α) (s : List α) : Option (List α) := tryReplaceFrom m 0 s

variable {m : TryMatcher α}

/-- As `replaceFrom_eq`. -/
theorem tryReplaceFrom_eq (skip : ℕ) (s : List α) :
    tryReplaceFrom m skip s = tryReplaceAll m (s.drop skip) := by
  induction s generalizing skip with
  | nil => cases skip <;> rfl
  | cons c cs ih =>
      cases skip with
      | zero => rfl
      | succ skip => exact ih skip

theorem tryReplaceAll_of_none {c : α} {cs : List α} (h : m (c :: cs) = none) :
    tryReplaceAll m (c :: cs) = (tryReplaceAll m cs).map (c :: ·) := by
  rw [tryReplaceAll, tryReplaceFrom, h]
  rfl

/-- One replacement that can be made, and the search goes on. -/
theorem tryReplaceAll_of_some {c : α} {cs new : List α} {n : ℕ}
    (h : m (c :: cs) = some (n + 1, some new)) :
    tryReplaceAll m (c :: cs) = (tryReplaceAll m (cs.drop n)).map (new ++ ·) := by
  rw [tryReplaceAll, tryReplaceFrom, h, ← tryReplaceFrom_eq]
  rfl

/-- A result is what replacing gives where nothing fails. -/
theorem eq_of_tryReplaceFrom {skip : ℕ} {s t : List α} (h : tryReplaceFrom m skip s = some t) :
    t = replaceFrom m.orNil skip s := by
  induction s generalizing skip t with
  | nil => cases skip <;> exact (Option.some.inj h).symm
  | cons c s ih =>
      cases skip with
      | succ skip => exact ih h
      | zero =>
          rw [tryReplaceFrom] at h
          rw [replaceFrom, TryMatcher.orNil]
          cases hm : m (c :: s) with
          | none =>
              rw [hm] at h
              obtain ⟨rest, hrest, rfl⟩ := Option.map_eq_some_iff.mp h
              exact congrArg _ (ih hrest)
          | some r =>
              rw [hm] at h
              obtain ⟨new, hnew, hmap⟩ := Option.bind_eq_some_iff.mp h
              obtain ⟨rest, hrest, rfl⟩ := Option.map_eq_some_iff.mp hmap
              simp only [Option.map_some, hnew, Option.getD_some]
              exact congrArg _ (ih hrest)

/-- If all replacements can be made, they are those of `replaceAll`. -/
theorem eq_of_tryReplaceAll {s t : List α} (h : tryReplaceAll m s = some t) :
    t = replaceAll m.orNil s :=
  eq_of_tryReplaceFrom h

/-- There is a result exactly if all that is found can be replaced. -/
theorem tryReplaceFrom_isSome_iff {skip : ℕ} {s : List α} :
    (tryReplaceFrom m skip s).isSome = true ↔ ∀ new ∈ findsFrom m skip s, new.isSome = true := by
  induction s generalizing skip with
  | nil => cases skip <;> simp [tryReplaceFrom, findsFrom]
  | cons c s ih =>
      cases skip with
      | succ skip => exact ih
      | zero =>
          rw [tryReplaceFrom, findsFrom]
          cases m (c :: s) with
          | none => simpa using ih
          | some r =>
              obtain ⟨n, new⟩ := r
              cases new with
              | none => simp
              | some new => simpa using ih

end failing

end replacing

/-- The last occurrence of an element separates what comes after it. -/
theorem eq_of_append_cons_eq {α : Type*} {c : α} {p q u v : List α} (hu : c ∉ u) (hv : c ∉ v)
    (h : p ++ c :: u = q ++ c :: v) : u = v := by
  rcases List.append_eq_append_iff.mp h with ⟨w, -, hw⟩ | ⟨w, -, hw⟩
  · cases w with
    | nil => exact (List.cons.inj hw).2
    | cons d w => exact absurd (by simp [(List.cons.inj hw).2]) hu
  · cases w with
    | nil => exact (List.cons.inj hw).2.symm
    | cons d w => exact absurd (by simp [(List.cons.inj hw).2]) hv

theorem not_mem_ite_nil {α : Type*} {c : α} {s : List α} (hs : c ∉ s) (b : Bool) :
    c ∉ (if b then s else []) := by
  cases b with
  | true => exact hs
  | false => exact List.not_mem_nil

/-! ## Lines -/

/-- No piece has the separator in it. -/
theorem not_mem_of_mem_splitOn {α : Type*} [BEq α] [LawfulBEq α] {c : α} {s l : List α}
    (h : l ∈ s.splitOn c) : c ∉ l := by
  induction s generalizing l with
  | nil =>
      rw [List.splitOn_nil, List.mem_singleton] at h
      simp [h]
  | cons d s ih =>
      rw [List.splitOn_cons_eq_if_modifyHead] at h
      split at h
      · rcases List.mem_cons.mp h with rfl | h
        · simp
        · exact ih h
      · rename_i hd
        cases hs : s.splitOn c with
        | nil => simp [hs] at h
        | cons first rest =>
            rw [hs, List.modifyHead_cons] at h
            rcases List.mem_cons.mp h with rfl | h
            · have hfirst : c ∉ first := ih (by simp [hs])
              intro hmem
              rcases List.mem_cons.mp hmem with rfl | hmem
              · simp at hd
              · exact hfirst hmem
            · exact ih (by simp [hs, h])

/-- A character of a joined text that the separator does not have is one of a part. -/
theorem mem_intercalate {α : Type*} {c : α} {sep : List α} (hsep : c ∉ sep) {ls : List (List α)} :
    c ∈ sep.intercalate ls ↔ ∃ l ∈ ls, c ∈ l := by
  induction ls with
  | nil => simp
  | cons l ls ih =>
      cases ls with
      | nil => simp
      | cons m ls =>
          rw [List.intercalate_cons_cons, List.mem_append, List.mem_append, ih]
          simp only [hsep, or_false, List.exists_mem_cons_iff]

/-- Splitting undoes joining exactly if the separator is in none of the parts. -/
theorem splitOn_intercalate_iff {α : Type*} [BEq α] [LawfulBEq α] {c : α} {ls : List (List α)}
    (hne : ls ≠ []) : ([c].intercalate ls).splitOn c = ls ↔ ∀ l ∈ ls, c ∉ l := by
  constructor
  · intro h l hl
    rw [← h] at hl
    exact not_mem_of_mem_splitOn hl
  · intro h
    exact List.splitOn_intercalate c h hne

/-! ## Byte positions -/

/-- How many bytes a text takes in UTF-8. -/
def utf8Len : List Char → ℕ
  | [] => 0
  | c :: s => c.utf8Size + utf8Len s

@[simp] theorem utf8Len_nil : utf8Len [] = 0 := rfl

@[simp] theorem utf8Len_cons (c : Char) (s : List Char) :
    utf8Len (c :: s) = c.utf8Size + utf8Len s := rfl

@[simp] theorem utf8Len_append (s t : List Char) : utf8Len (s ++ t) = utf8Len s + utf8Len t := by
  induction s with
  | nil => simp
  | cons c s ih => simp [ih, Nat.add_assoc]

/-- `str::char_indices`, for a text that starts at byte `pos`. -/
def charIndices (pos : ℕ) : List Char → List (ℕ × Char)
  | [] => []
  | c :: cs => (pos, c) :: charIndices (pos + c.utf8Size) cs

/-- The second text starts where the first one ends, counted in bytes. -/
theorem charIndices_append (pos : ℕ) (s t : List Char) :
    charIndices pos (s ++ t) = charIndices pos s ++ charIndices (pos + utf8Len s) t := by
  induction s generalizing pos with
  | nil => simp [charIndices]
  | cons c s ih => simp [charIndices, ih, Nat.add_assoc]

@[simp] theorem length_charIndices (pos : ℕ) (s : List Char) :
    (charIndices pos s).length = s.length := by
  induction s generalizing pos with
  | nil => rfl
  | cons c s ih => simp [charIndices, ih]

/-- The `n`-th character from the back, with its byte position: `n` characters
follow it, and the bytes before it are those of the text before it. -/
theorem charIndices_nthBack {s : List Char} {n pos : ℕ} {ch : Char}
    (h : (charIndices 0 s).reverse[n]? = some (pos, ch)) :
    ∃ p r, s = p ++ ch :: r ∧ utf8Len p = pos ∧ r.length = n := by
  have hn : n < s.length := by
    obtain ⟨hlt, -⟩ := List.getElem?_eq_some_iff.mp h
    simpa using hlt
  have hsplit : s = s.take (s.length - 1 - n) ++ s.drop (s.length - 1 - n) :=
    (List.take_append_drop _ s).symm
  -- The nth from the back is the head of what is left after the others in front of it.
  cases hd : s.drop (s.length - 1 - n) with
  | nil =>
      have := congrArg List.length hd
      simp at this
      omega
  | cons c r =>
      have hr : r.length = n := by
        have := congrArg List.length hd
        simp at this
        omega
      rw [hd] at hsplit
      rw [hsplit, charIndices_append, charIndices, List.reverse_append, List.reverse_cons,
        List.append_assoc, List.getElem?_append_right (by simp [hr])] at h
      simp only [Nat.zero_add, List.length_reverse, length_charIndices, hr, Nat.sub_self,
        List.singleton_append, List.getElem?_cons_zero, Option.some.injEq, Prod.mk.injEq] at h
      obtain ⟨rfl, rfl⟩ := h
      exact ⟨_, r, hsplit, rfl, hr⟩

/-- `str::is_char_boundary`. -/
def IsCharBoundary (s : List Char) (pos : ℕ) : Prop := ∃ p, p <+: s ∧ utf8Len p = pos

/-- The characters that end at or before a byte position. -/
def upTo : ℕ → List Char → List Char
  | _, [] => []
  | pos, c :: cs => if c.utf8Size ≤ pos then c :: upTo (pos - c.utf8Size) cs else []

/-- `String::truncate`, which panics anywhere but at a character boundary. -/
def truncate (s : List Char) (pos : ℕ) (_ : IsCharBoundary s pos) : List Char := upTo pos s

/-- Cutting at the length of a first part gives that part. -/
theorem upTo_append (p s : List Char) : upTo (utf8Len p) (p ++ s) = p := by
  induction p with
  | nil =>
      cases s with
      | nil => rfl
      | cons c s => simp [upTo, Nat.pos_iff_ne_zero.mp c.utf8Size_pos]
  | cons c p ih => simp [upTo, ih]

/-! ## Decimal numbers -/

/-- A number as `Display` prints it. -/
def decimal (i : ℤ) : List Char := (toString i).toList

theorem decimal_ofNat (n : ℕ) : decimal n = Nat.toDigits 10 n := Nat.toList_repr

theorem decimal_negSucc (n : ℕ) : decimal (Int.negSucc n) = '-' :: Nat.toDigits 10 (n + 1) := by
  change ("-" ++ (n + 1).repr).toList = _
  rw [String.toList_append, Nat.toList_repr]
  rfl

/-- Numbers are written with digits and a minus sign. -/
theorem mem_decimal {i : ℤ} {c : Char} (h : c ∈ decimal i) : c = '-' ∨ c.isDigit := by
  cases i with
  | ofNat n =>
      rw [Int.ofNat_eq_natCast, decimal_ofNat] at h
      exact .inr (Nat.isDigit_of_mem_toDigits (by decide) (by decide) h)
  | negSucc n =>
      rw [decimal_negSucc] at h
      rcases List.mem_cons.mp h with rfl | h
      · exact .inl rfl
      · exact .inr (Nat.isDigit_of_mem_toDigits (by decide) (by decide) h)

theorem not_mem_decimal {c : Char} (hminus : c ≠ '-') (hdigit : c.isDigit = false) (i : ℤ) :
    c ∉ decimal i := by
  intro hmem
  rcases mem_decimal hmem with h | h
  · exact hminus h
  · simp [hdigit] at h

theorem toDigits_inj {m n : ℕ} (h : Nat.toDigits 10 m = Nat.toDigits 10 n) : m = n := by
  rw [← Nat.ofDigitChars_toDigits (b := 10) (n := m) (by decide) (by decide), h,
    Nat.ofDigitChars_toDigits (by decide) (by decide)]

/-- Different numbers are written differently. -/
theorem decimal_injective : Function.Injective decimal := by
  -- a minus sign is no digit
  have hsign : ∀ m n : ℕ, Nat.toDigits 10 m ≠ '-' :: Nat.toDigits 10 n := by
    intro m n heq
    have hmem : '-' ∈ Nat.toDigits 10 m := by
      rw [heq]
      exact List.mem_cons_self
    exact absurd (Nat.isDigit_of_mem_toDigits (by decide) (by decide) hmem) (by decide)
  intro i j h
  cases i with
  | ofNat m =>
      cases j with
      | ofNat n =>
          rw [Int.ofNat_eq_natCast, Int.ofNat_eq_natCast, decimal_ofNat, decimal_ofNat] at h
          rw [toDigits_inj h]
      | negSucc n =>
          rw [Int.ofNat_eq_natCast, decimal_ofNat, decimal_negSucc] at h
          exact absurd h (hsign m (n + 1))
  | negSucc m =>
      cases j with
      | ofNat n =>
          rw [Int.ofNat_eq_natCast, decimal_ofNat, decimal_negSucc] at h
          exact absurd h.symm (hsign n (m + 1))
      | negSucc n =>
          rw [decimal_negSucc, decimal_negSucc] at h
          have := toDigits_inj (List.cons.inj h).2
          rw [Nat.succ_injective this]

end Kit.Text
