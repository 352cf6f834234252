import Cookpit.Json11
import Cookpit.Lib.JsonText

/-!
# What json11 parses

`parse` accepts the JSON texts of up to 200 levels below the top and nothing
else, and yields the value they spell (`parse_iff`): a number without fraction
and exponent as an integer if it has at most nine characters, and the last of
the members that share a name.
-/

namespace Json11

open ByteString JsonText

-- ---------------------------------------------------------------------------
-- Strings
-- ---------------------------------------------------------------------------

section
variable {last : Option Nat} {out rest : Bytes}

theorem parseString_quote :
    parseString last out (chr '"' :: rest) = some (out ++ encodeUtf8 last, rest) := by
  rw [parseString.eq_def]
  exact if_pos rfl

theorem parseString_raw (h : Plain c) :
    parseString last out (c :: rest) =
      parseString none (out ++ encodeUtf8 last ++ [c]) rest := by
  rw [parseString.eq_def]
  simp only [if_neg h.1, if_neg h.2.2, if_pos h.2.1]

theorem unescape_letter (e : Escape) :
    e.letter ≠ chr 'u' ∧ Json11.unescape e.letter = some e.value := by
  cases e <;> decide

theorem parseString_escape (e : Escape) :
    parseString last out (chr '\\' :: e.letter :: rest) =
      parseString none (out ++ encodeUtf8 last ++ [e.value]) rest := by
  obtain ⟨hu, hvalue⟩ := unescape_letter e
  rw [parseString.eq_def]
  simp only [if_neg (show ¬ chr '\\' = chr '"' by decide),
    if_neg (show ¬ chr '\\' ≤ 0x1f by decide), if_neg (not_not.mpr (rfl : chr '\\' = chr '\\')),
    if_neg hu, hvalue]

theorem parseString_unit (u : Hex) :
    parseString last out (chr '\\' :: chr 'u' :: (u.digits ++ rest)) =
      parseString (escaped last u.code).2 (out ++ (escaped last u.code).1) rest := by
  obtain ⟨digits, code, hreads⟩ := u
  match digits, hreads with
  | [a, b, c, d], hreads =>
    have hcode : Json11.hexCode a b c d = some code := hreads
    rw [parseString.eq_def]
    simp only [if_neg (show ¬ chr '\\' = chr '"' by decide),
      if_neg (show ¬ chr '\\' ≤ 0x1f by decide), if_neg (not_not.mpr (rfl : chr '\\' = chr '\\')),
      if_true, List.cons_append, List.nil_append, hcode]

/-- Behind an escape that is still pending, the text is read as if the escape
stood in front of it. -/
theorem parseString_spell (ps : List Piece) (rest : Bytes) :
    (∀ out, parseString none out (ps.flatMap Piece.spell ++ chr '"' :: rest) =
        some (out ++ meaning ps, rest)) ∧
      ∀ (u : Hex) out,
        parseString (some u.code) out (ps.flatMap Piece.spell ++ chr '"' :: rest) =
          some (out ++ meaning (.unit u :: ps), rest) := by
  induction ps with
  | nil =>
    constructor
    · intro out
      rw [List.flatMap_nil, List.nil_append, parseString_quote]
      rfl
    · intro u out
      rw [List.flatMap_nil, List.nil_append, parseString_quote, meaning, meaning, List.append_nil]
      · rfl
      · simp
  | cons p ps ih =>
    obtain ⟨ihnone, ihsome⟩ := ih
    rw [List.flatMap_cons, List.append_assoc]
    cases p with
    | raw c h =>
      constructor
      · intro out
        rw [Piece.spell, List.singleton_append, parseString_raw h, ihnone]
        simp [meaning, encodeUtf8]
      · intro u out
        rw [Piece.spell, List.singleton_append, parseString_raw h, ihnone]
        simp [meaning, encodeUtf8, Utf.encode8]
    | escape e =>
      constructor
      · intro out
        rw [Piece.spell, List.cons_append, List.singleton_append, parseString_escape, ihnone]
        simp [meaning, encodeUtf8]
      · intro u out
        rw [Piece.spell, List.cons_append, List.singleton_append, parseString_escape, ihnone]
        simp [meaning, encodeUtf8, Utf.encode8]
    | unit v =>
      constructor
      · intro out
        rw [Piece.spell, List.cons_append, List.cons_append, parseString_unit]
        simp only [escaped, List.append_nil]
        exact ihsome v out
      · intro u out
        rw [Piece.spell, List.cons_append, List.cons_append, parseString_unit, escaped]
        by_cases hpair : Utf.High u.code ∧ Utf.Low v.code
        · have hif : (0xD800 ≤ u.code ∧ u.code ≤ 0xDBFF) ∧ (0xDC00 ≤ v.code ∧ v.code ≤ 0xDFFF) :=
            hpair
          simp only [if_pos hif, ihnone, meaning, if_pos hpair, List.append_assoc]
          rfl
        · have hif : ¬ ((0xD800 ≤ u.code ∧ u.code ≤ 0xDBFF) ∧
            (0xDC00 ≤ v.code ∧ v.code ≤ 0xDFFF)) := hpair
          rw [meaning, if_neg hpair]
          simp only [if_neg hif, ihsome, List.append_assoc]
          rfl

theorem escape_of_unescape (h : Json11.unescape c = some v) : ∃ e : Escape, c = e.letter := by
  simp only [Json11.unescape] at h
  split at h
  · exact ⟨.backspace, ‹_›⟩
  split at h
  · exact ⟨.formFeed, ‹_›⟩
  split at h
  · exact ⟨.newline, ‹_›⟩
  split at h
  · exact ⟨.carriageReturn, ‹_›⟩
  split at h
  · exact ⟨.tab, ‹_›⟩
  split at h
  · rename_i hc
    obtain rfl | rfl | rfl := hc
    · exact ⟨.quote, rfl⟩
    · exact ⟨.backslash, rfl⟩
    · exact ⟨.slash, rfl⟩
  · cases h

/-- The parser stops at a quote with nothing but pieces in front of it. -/
theorem spell_of_parseString (h : parseString last out s = some (v, rest)) :
    ∃ ps : List Piece, s = ps.flatMap Piece.spell ++ chr '"' :: rest := by
  fun_induction parseString last out s with
  | case1 => cases h
  | case2 last out rest' =>
    cases h
    exact ⟨[], rfl⟩
  | case3 => cases h
  | case4 last out c rest' hquote hcontrol hplain ih =>
    obtain ⟨ps, rfl⟩ := ih h
    exact ⟨.raw c ⟨hquote, hplain, hcontrol⟩ :: ps, rfl⟩
  | case5 => cases h
  | case6 => cases h
  | case7 last out c hquote hcontrol hslash a b c' d rest' pt hcode ih =>
    obtain ⟨ps, rfl⟩ := ih h
    obtain rfl := not_not.mp hslash
    exact ⟨.unit ⟨[a, b, c', d], pt, hcode⟩ :: ps, rfl⟩
  | case8 => cases h
  | case9 => cases h
  | case10 last out c hquote hcontrol hslash esc rest' hu c' hesc ih =>
    obtain ⟨ps, rfl⟩ := ih h
    obtain rfl := not_not.mp hslash
    obtain ⟨e, rfl⟩ := escape_of_unescape hesc
    exact ⟨.escape e :: ps, rfl⟩

end

-- ---------------------------------------------------------------------------
-- Numbers
-- ---------------------------------------------------------------------------

/-- A text with a byte in front that no number goes on with. -/
def Stops (rest : Bytes) : Prop :=
  isDigit (peek rest) = false ∧ peek rest ≠ chr '.' ∧ peek rest ≠ chr 'e' ∧ peek rest ≠ chr 'E'

instance (rest : Bytes) : Decidable (Stops rest) := inferInstanceAs (Decidable (_ ∧ _))

/-- No fraction and no exponent. -/
def Unmarked (text : Bytes) : Prop := ∀ c ∈ text, c ≠ chr '.' ∧ c ≠ chr 'e' ∧ c ≠ chr 'E'

instance (text : Bytes) : Decidable (Unmarked text) := List.decidableBAll _ _

/-- A number as it is kept: integers of up to nine characters are converted. -/
def ofNumber (text : Bytes) : Json :=
  if Unmarked text ∧ text.length ≤ 9 then .int (atoi text) else .double text

theorem cons_of_peek (h : peek str = c) (hc : c ≠ 0) : ∃ rest, str = c :: rest := by
  cases str with
  | nil => exact absurd h.symm hc
  | cons d rest =>
    obtain rfl : d = c := h
    exact ⟨rest, rfl⟩

theorem cons_of_isDigit_peek (h : isDigit (peek str) = true) : ∃ c rest, str = c :: rest := by
  cases str with
  | nil => exact absurd h (by decide)
  | cons c rest => exact ⟨c, rest, rfl⟩

theorem digits_append (h : Digits ds) (hstop : isDigit (peek rest) = false) :
    digits (ds ++ rest) = some rest := by
  obtain ⟨hne, hds⟩ := h
  obtain ⟨c, ds, rfl⟩ := List.exists_cons_of_ne_nil hne
  have hc : isDigit (peek (c :: ds ++ rest)) = true := hds c List.mem_cons_self
  have hdrop : rest.dropWhile isDigit = rest := by
    cases rest with
    | nil => rfl
    | cons d rest => exact List.dropWhile_cons_of_neg (by simpa [peek] using hstop)
  rw [digits, if_pos hc, List.dropWhile_append_of_pos hds, hdrop]

theorem of_digits (h : digits str = some rest) :
    ∃ ds, Digits ds ∧ str = ds ++ rest ∧ isDigit (peek rest) = false := by
  rw [digits] at h
  split at h
  · rename_i hc
    cases h
    refine ⟨str.takeWhile isDigit, ⟨?_, fun c hm => ?_⟩, ?_, ?_⟩
    · obtain ⟨c, rest, rfl⟩ := cons_of_isDigit_peek hc
      have hc : isDigit c = true := hc
      rw [List.takeWhile_cons_of_pos hc]
      exact List.cons_ne_nil _ _
    · exact List.mem_takeWhile_imp hm
    · rw [List.takeWhile_append_dropWhile]
    · cases hrest : str.dropWhile isDigit with
      | nil => rfl
      | cons d rest =>
        have hhead := List.head?_dropWhile_not isDigit str
        rw [hrest] at hhead
        simpa [peek] using hhead
  · cases h

theorem integerPart_append (h : Integer i) (hstop : isDigit (peek rest) = false) :
    integerPart (i ++ rest) = some rest := by
  cases h with
  | zero =>
    have hzero : peek ([chr '0'] ++ rest) = chr '0' := rfl
    have hdrop : ([chr '0'] ++ rest).drop 1 = rest := rfl
    rw [integerPart, if_pos hzero, hdrop, if_neg (by simp [hstop])]
  | @digits c ds h0 h =>
    have hpeek : peek (c :: ds ++ rest) = c := rfl
    rw [integerPart, hpeek, if_neg h0]
    exact digits_append h hstop

theorem of_integerPart (h : integerPart str = some rest) : ∃ i, Integer i ∧ str = i ++ rest := by
  rw [integerPart] at h
  split at h
  · rename_i hzero
    obtain ⟨rest', rfl⟩ := cons_of_peek hzero (by decide)
    split at h
    · cases h
    · cases h
      exact ⟨[chr '0'], .zero, rfl⟩
  · rename_i hzero
    obtain ⟨ds, hds, rfl, -⟩ := of_digits h
    obtain ⟨c, ds, rfl⟩ := List.exists_cons_of_ne_nil hds.1
    exact ⟨c :: ds, .digits hzero hds, rfl⟩

theorem decimalPart_append (h : Fraction f) (hstop : isDigit (peek rest) = false)
    (hdot : peek rest ≠ chr '.') : decimalPart (f ++ rest) = some rest := by
  cases h with
  | absent => exact if_neg hdot
  | @digits ds h =>
    have hpeek : peek (chr '.' :: ds ++ rest) = chr '.' := rfl
    rw [decimalPart, if_pos hpeek]
    exact digits_append h hstop

theorem of_decimalPart (h : decimalPart str = some rest) :
    ∃ f, Fraction f ∧ str = f ++ rest ∧ (f = [] → peek str ≠ chr '.') := by
  rw [decimalPart] at h
  split at h
  · rename_i hdot
    obtain ⟨rest', rfl⟩ := cons_of_peek hdot (by decide)
    obtain ⟨ds, hds, hrest, -⟩ := of_digits h
    obtain rfl : rest' = ds ++ rest := hrest
    exact ⟨chr '.' :: ds, .digits hds, rfl, fun h => absurd h (List.cons_ne_nil _ _)⟩
  · rename_i hdot
    cases h
    exact ⟨[], .absent, rfl, fun _ => hdot⟩

theorem exponentPart_append (h : Exponent e) (hstop : Stops rest) :
    exponentPart (e ++ rest) = some rest := by
  obtain ⟨hdigit, -, he, hE⟩ := hstop
  cases h with
  | absent => exact if_neg (not_or.mpr ⟨he, hE⟩)
  | @digits c sign ds hc hsign h =>
    have hpeek : peek (c :: (sign ++ ds) ++ rest) = c := rfl
    have hdrop : (c :: (sign ++ ds) ++ rest).drop 1 = sign ++ (ds ++ rest) :=
      List.append_assoc sign ds rest
    rw [exponentPart, hpeek, if_pos hc, hdrop]
    simp only
    obtain rfl | rfl | rfl := hsign
    · obtain ⟨d, ds', rfl⟩ := List.exists_cons_of_ne_nil h.1
      have hd : isDigit d = true := h.2 d List.mem_cons_self
      have hnosign : ¬ (peek ([] ++ (d :: ds' ++ rest)) = chr '+' ∨
          peek ([] ++ (d :: ds' ++ rest)) = chr '-') := by
        rintro (rfl | rfl)
        · exact absurd hd (by decide)
        · exact absurd hd (by decide)
      rw [if_neg hnosign]
      exact digits_append h hdigit
    · exact digits_append h hdigit
    · exact digits_append h hdigit

theorem of_exponentPart (h : exponentPart str = some rest) :
    ∃ e, Exponent e ∧ str = e ++ rest ∧ (e = [] → peek str ≠ chr 'e' ∧ peek str ≠ chr 'E') := by
  rw [exponentPart] at h
  split at h
  · rename_i he
    obtain ⟨c, str', rfl⟩ : ∃ c str', str = c :: str' := by
      obtain he | he := he
      · exact ⟨_, cons_of_peek he (by decide)⟩
      · exact ⟨_, cons_of_peek he (by decide)⟩
    have hc : c = chr 'e' ∨ c = chr 'E' := he
    have hne {s : Bytes} : c :: s = [] → peek (c :: str') ≠ chr 'e' ∧ peek (c :: str') ≠ chr 'E' :=
      fun h => absurd h (List.cons_ne_nil _ _)
    simp only [List.drop_succ_cons, List.drop_zero] at h
    split at h
    · rename_i hsign
      obtain ⟨c', str'', rfl⟩ : ∃ c' str'', str' = c' :: str'' := by
        obtain hs | hs := hsign
        · exact ⟨_, cons_of_peek hs (by decide)⟩
        · exact ⟨_, cons_of_peek hs (by decide)⟩
      obtain ⟨ds, hds, hrest, -⟩ := of_digits h
      obtain rfl : str'' = ds ++ rest := hrest
      obtain rfl | rfl : c' = chr '+' ∨ c' = chr '-' := hsign
      · exact ⟨c :: ([chr '+'] ++ ds), .digits hc (.inr (.inl rfl)) hds, rfl, hne⟩
      · exact ⟨c :: ([chr '-'] ++ ds), .digits hc (.inr (.inr rfl)) hds, rfl, hne⟩
    · obtain ⟨ds, hds, rfl, -⟩ := of_digits h
      exact ⟨c :: ([] ++ ds), .digits hc (.inl rfl) hds, rfl, hne⟩
  · rename_i he
    cases h
    exact ⟨[], .absent, rfl, fun _ => not_or.mp he⟩

theorem take_of_append (s rest : Bytes) :
    (s ++ rest).take ((s ++ rest).length - rest.length) = s := by
  rw [List.length_append, Nat.add_sub_cancel, List.take_left]

/-- The sign is cut off in front of the digits. -/
theorem unsigned (hsign : sign = [] ∨ sign = [chr '-']) (h : Integer i) (rest : Bytes) :
    (if peek (sign ++ (i ++ rest)) = chr '-' then (sign ++ (i ++ rest)).drop 1
      else sign ++ (i ++ rest)) = i ++ rest := by
  obtain rfl | rfl := hsign
  · have hdigit : isDigit (peek ([] ++ (i ++ rest))) = true := by
      cases h with
      | zero => rfl
      | digits h0 h => exact h.2 _ List.mem_cons_self
    have hno : peek ([] ++ (i ++ rest)) ≠ chr '-' := by
      intro he
      rw [he] at hdigit
      exact absurd hdigit (by decide)
    rw [if_neg hno, List.nil_append]
  · rfl

/-- Signs and digits are no marks of a fraction or an exponent. -/
theorem unmarked (hsign : sign = [] ∨ sign = [chr '-']) (h : Integer i) :
    Unmarked (sign ++ i) := by
  have hdigit {c : UInt8} (hc : isDigit c = true) :
      c ≠ chr '.' ∧ c ≠ chr 'e' ∧ c ≠ chr 'E' := by
    refine ⟨?_, ?_, ?_⟩
    all_goals
      rintro rfl
      exact absurd hc (by decide)
  intro c hc
  obtain hc | hc := List.mem_append.mp hc
  · obtain rfl | rfl := hsign
    · cases hc
    · obtain rfl := List.mem_singleton.mp hc
      decide
  · cases h with
    | zero =>
      obtain rfl := List.mem_singleton.mp hc
      decide
    | digits h0 h => exact hdigit (h.2 c hc)

/-- Behind the integer part. -/
theorem parseNumber_eq (hsign : sign = [] ∨ sign = [chr '-']) (hi : Integer i)
    (h : integerPart (i ++ tail) = some tail) :
    parseNumber (sign ++ (i ++ tail)) =
      if peek tail ≠ chr '.' ∧ peek tail ≠ chr 'e' ∧ peek tail ≠ chr 'E' ∧
          (sign ++ i).length ≤ 9 then some (.int (atoi (sign ++ i)), tail)
      else ((decimalPart tail).bind exponentPart).map fun rest =>
        (.double ((sign ++ (i ++ tail)).take ((sign ++ (i ++ tail)).length - rest.length)),
          rest) := by
  have hread : (sign ++ (i ++ tail)).take ((sign ++ (i ++ tail)).length - tail.length) =
      sign ++ i := by
    rw [← List.append_assoc, take_of_append]
  rw [parseNumber, unsigned hsign hi, h]
  simp only [Option.bind_eq_bind, Option.bind_some, hread]
  split
  · rfl
  · cases decimalPart tail with
    | none => rfl
    | some rest => cases hexp : exponentPart rest <;> simp [hexp]

theorem ofNumber_integer (hsign : sign = [] ∨ sign = [chr '-']) (hi : Integer i) :
    ofNumber (sign ++ i) =
      if (sign ++ i).length ≤ 9 then .int (atoi (sign ++ i)) else .double (sign ++ i) := by
  rw [ofNumber]
  simp only [and_iff_right (unmarked hsign hi)]

theorem ofNumber_marked (h : (f : Bytes) ≠ [] ∨ (e : Bytes) ≠ []) (hf : Fraction f)
    (he : Exponent e) (s : Bytes) : ofNumber (s ++ (f ++ e)) = .double (s ++ (f ++ e)) := by
  refine if_neg fun hno => ?_
  cases hf with
  | digits hds => exact (hno.1 (chr '.') (by simp)).1 rfl
  | absent =>
    cases he with
    | absent => simp at h
    | @digits c sign ds hc =>
      have hmem := hno.1 c (by simp)
      obtain rfl | rfl := hc
      · exact hmem.2.1 rfl
      · exact hmem.2.2 rfl

/-- A number without fraction and exponent is an integer. -/
theorem integer_of_unmarked (h : Number s) (hs : Unmarked s) :
    ∃ sign i, (sign = [] ∨ sign = [chr '-']) ∧ Integer i ∧ s = sign ++ i := by
  obtain ⟨hsign, hi, hf, he⟩ := h
  rename_i sign i f e
  cases hf with
  | digits => exact absurd rfl (hs (chr '.') (by simp)).1
  | absent =>
    cases he with
    | absent => exact ⟨sign, i, hsign, hi, by simp⟩
    | @digits c sign' ds hc =>
      have hmem := hs c (by simp)
      obtain rfl | rfl := hc
      · exact absurd rfl hmem.2.1
      · exact absurd rfl hmem.2.2

theorem peek_exponent (h : Exponent e) (hstop : Stops rest) :
    isDigit (peek (e ++ rest)) = false ∧ peek (e ++ rest) ≠ chr '.' := by
  cases h with
  | absent => exact ⟨hstop.1, hstop.2.1⟩
  | digits hc =>
    have hdot (c : UInt8) (h : c ≠ chr '.') (s : Bytes) : peek (c :: s) ≠ chr '.' := h
    obtain rfl | rfl := hc
    · exact ⟨rfl, hdot _ (by decide) _⟩
    · exact ⟨rfl, hdot _ (by decide) _⟩

theorem peek_fraction (h : Fraction f) (hrest : isDigit (peek rest) = false) :
    isDigit (peek (f ++ rest)) = false := by
  cases h with
  | absent => exact hrest
  | digits => rfl

theorem parseNumber_append (h : Number s) (hstop : Stops rest) :
    parseNumber (s ++ rest) = some (ofNumber s, rest) := by
  obtain ⟨hsign, hi, hf, he⟩ := h
  rename_i sign i f e
  have hdigit := hstop.1
  have hassoc : sign ++ (i ++ (f ++ e)) ++ rest = sign ++ (i ++ (f ++ (e ++ rest))) := by simp
  by_cases hnone : f = [] ∧ e = []
  · obtain ⟨rfl, rfl⟩ := hnone
    simp only [List.append_nil, List.append_assoc]
    rw [parseNumber_eq hsign hi (integerPart_append hi hdigit), ofNumber_integer hsign hi]
    obtain ⟨-, hdot, he, hE⟩ := hstop
    simp only [hdot, he, hE, ne_eq, not_false_eq_true, true_and]
    split
    · rfl
    · rw [decimalPart, if_neg hdot, Option.bind_some, exponentPart, if_neg (not_or.mpr ⟨he, hE⟩),
        Option.map_some, ← List.append_assoc, take_of_append]
  · have hafter := peek_exponent he hstop
    have htail : isDigit (peek (f ++ (e ++ rest))) = false := peek_fraction hf hafter.1
    have hmark : ¬ (peek (f ++ (e ++ rest)) ≠ chr '.' ∧ peek (f ++ (e ++ rest)) ≠ chr 'e' ∧
        peek (f ++ (e ++ rest)) ≠ chr 'E' ∧ (sign ++ i).length ≤ 9) := by
      rintro ⟨hdot, he', hE', -⟩
      cases hf with
      | digits => exact hdot rfl
      | absent =>
        cases he with
        | absent => exact hnone ⟨rfl, rfl⟩
        | digits hc =>
          obtain rfl | rfl := hc
          · exact he' rfl
          · exact hE' rfl
    rw [hassoc, parseNumber_eq hsign hi (integerPart_append hi htail), if_neg hmark,
      decimalPart_append hf hafter.1 hafter.2, Option.bind_some, exponentPart_append he hstop,
      Option.map_some, ← hassoc, take_of_append, ← List.append_assoc,
      ofNumber_marked (not_and_or.mp hnone) hf he]

theorem of_parseNumber (h : parseNumber str = some (j, rest)) :
    ∃ s, Number s ∧ str = s ++ rest ∧ j = ofNumber s := by
  have hsigned : ∃ sign str', (sign = [] ∨ sign = [chr '-']) ∧ str = sign ++ str' ∧
      (if peek str = chr '-' then str.drop 1 else str) = str' := by
    split
    · rename_i hminus
      obtain ⟨str', rfl⟩ := cons_of_peek hminus (by decide)
      exact ⟨[chr '-'], str', .inr rfl, rfl, rfl⟩
    · exact ⟨[], str, .inl rfl, rfl, rfl⟩
  obtain ⟨sign, str', hsign, rfl, hdrop⟩ := hsigned
  cases hint : integerPart str' with
  | none =>
    rw [parseNumber, hdrop, hint] at h
    cases h
  | some tail =>
    obtain ⟨i, hi, rfl⟩ := of_integerPart hint
    rw [parseNumber_eq hsign hi hint] at h
    split at h
    · rename_i hshort
      cases h
      refine ⟨sign ++ i, ?_, (List.append_assoc _ _ _).symm, ?_⟩
      · simpa using Number.parts hsign hi .absent .absent
      · rw [ofNumber_integer hsign hi, if_pos hshort.2.2.2]
    · rename_i hlong
      obtain ⟨rest', hrest, hj⟩ := Option.map_eq_some_iff.mp h
      cases hj
      obtain ⟨after, hdec, hexp⟩ := Option.bind_eq_some_iff.mp hrest
      obtain ⟨f, hf, rfl, hnodot⟩ := of_decimalPart hdec
      obtain ⟨e, he, rfl, hnoexp⟩ := of_exponentPart hexp
      have hassoc : sign ++ (i ++ (f ++ (e ++ rest))) = sign ++ (i ++ (f ++ e)) ++ rest := by simp
      refine ⟨sign ++ (i ++ (f ++ e)), .parts hsign hi hf he, hassoc, ?_⟩
      rw [hassoc, take_of_append]
      by_cases hnone : f = [] ∧ e = []
      · obtain ⟨rfl, rfl⟩ := hnone
        have hpeek := hnodot rfl
        have hpeek' := hnoexp rfl
        have hlen : ¬ (sign ++ i).length ≤ 9 := fun hlen =>
          hlong ⟨hpeek, hpeek'.1, hpeek'.2, hlen⟩
        rw [List.nil_append, List.append_nil, ofNumber_integer hsign hi, if_neg hlen]
      · rw [← List.append_assoc, ofNumber_marked (not_and_or.mp hnone) hf he]

-- ---------------------------------------------------------------------------
-- Values
-- ---------------------------------------------------------------------------

mutual

/-- The value json11 keeps for one that is spelled. -/
def ofValue : Value → Json
  | .null => .null
  | .bool value => .bool value
  | .number text _ => ofNumber text
  | .string value => .string value
  | .array values => .array (ofElements values)
  | .object members => .object (ofMembers [] members)

def ofElements : List Value → List Json
  | [] => []
  | v :: vs => ofValue v :: ofElements vs

def ofMembers (data : List (Bytes × Json)) : List (Bytes × Value) → List (Bytes × Json)
  | [] => data
  | m :: ms => ofMembers (assign data m.1 (ofValue m.2)) ms

end

theorem consumeWhitespace_append (hw : Blank w) (str : Bytes) :
    consumeWhitespace (w ++ str) = consumeWhitespace str := by
  induction w with
  | nil => rfl
  | cons c w ih =>
    have hc : c = 32 ∨ c = 13 ∨ c = 10 ∨ c = 9 := hw c List.mem_cons_self
    rw [List.cons_append, consumeWhitespace, if_pos hc]
    exact ih fun d hd => hw d (List.mem_cons_of_mem _ hd)

theorem getNextToken_append (hw : Blank w) (str : Bytes) :
    getNextToken (w ++ str) = getNextToken str := by
  rw [getNextToken, consumeWhitespace_append hw, getNextToken]

theorem getNextToken_cons (h : ¬ IsBlank c) (rest : Bytes) :
    getNextToken (c :: rest) = some (c, rest) := by
  have hc : ¬ (c = 32 ∨ c = 13 ∨ c = 10 ∨ c = 9) := h
  rw [getNextToken, consumeWhitespace, if_neg hc]

theorem of_getNextToken (h : getNextToken str = some (c, rest)) :
    ∃ w, Blank w ∧ ¬ IsBlank c ∧ str = w ++ c :: rest := by
  induction str with
  | nil => cases h
  | cons d str ih =>
    by_cases hd : IsBlank d
    · have hskip : getNextToken ([d] ++ str) = getNextToken str :=
        getNextToken_append (fun e he => List.mem_singleton.mp he ▸ hd) str
      obtain ⟨w, hw, hc, rfl⟩ := ih (hskip ▸ h)
      exact ⟨d :: w, List.forall_mem_cons.mpr ⟨hd, hw⟩, hc, rfl⟩
    · rw [getNextToken_cons hd] at h
      cases h
      exact ⟨[], blank_nil, hd, rfl⟩

theorem parseJson_append (hw : Blank w) (n : Nat) (str : Bytes) :
    parseJson n (w ++ str) = parseJson n str := by
  cases n with
  | zero => rfl
  | succ n => simp only [parseJson, getNextToken_append hw]

theorem stops_cons (h : Stops [c]) (rest : Bytes) : Stops (c :: rest) := h

theorem stops_append (hw : Blank w) (h : Stops rest) : Stops (w ++ rest) := by
  cases w with
  | nil => exact h
  | cons c w =>
    have hc : ∀ c, IsBlank c → Stops [c] := by
      rintro c (rfl | rfl | rfl | rfl) <;> decide
    exact stops_cons (hc c (hw c List.mem_cons_self)) _

/-- One member: its name and its value. -/
def parseMember (parseJson : Bytes → Option (Json × Bytes)) (str : Bytes) :
    Option ((Bytes × Json) × Bytes) := do
  let (ch, str) ← getNextToken str
  if ch ≠ chr '"' then none
  else do
    let (key, str) ← parseString none [] str
    let (ch, str) ← getNextToken str
    if ch ≠ chr ':' then none
    else do
      let (value, str) ← parseJson str
      return ((key, value), str)

theorem parseMembers_eq :
    parseMembers pj (rounds + 1) data str = (do
      let (m, str) ← parseMember pj str
      let (ch, str) ← getNextToken str
      if ch = chr '}' then return (.object (assign data m.1 m.2), str)
      else if ch ≠ chr ',' then none
      else parseMembers pj rounds (assign data m.1 m.2) str) := by
  rw [parseMembers, parseMember]
  cases getNextToken str with
  | none => rfl
  | some token =>
    obtain ⟨ch, str⟩ := token
    simp only [Option.bind_eq_bind, Option.bind_some]
    split
    · rfl
    cases parseString none [] str with
    | none => rfl
    | some key =>
      obtain ⟨key, str⟩ := key
      simp only [Option.bind_some]
      cases getNextToken str with
      | none => rfl
      | some token =>
        obtain ⟨ch, str⟩ := token
        simp only [Option.bind_some]
        split
        · rfl
        cases pj str with
        | none => rfl
        | some value => rfl

-- ---------------------------------------------------------------------------
-- What the grammar derives is parsed
-- ---------------------------------------------------------------------------

/-- How the parser takes a text of a phrase. Behind a value it has not looked at
the blanks yet. -/
def Taken : Nat → Phrase → Bytes → Prop
  | n, .value v, s => ∀ rest, Stops rest → parseJson n (s ++ rest) = some (ofValue v, rest)
  | n, .element v, s =>
    ∀ rest, Stops rest →
      ∃ w, Blank w ∧ parseJson n (s ++ rest) = some (ofValue v, w ++ rest)
  | n, .elements vs, s =>
    ∀ rounds data rest, s.length < rounds →
      parseElements (parseJson n) rounds data (s ++ chr ']' :: rest) =
        some (.array (data ++ ofElements vs), rest)
  | n, .member m, s =>
    ∀ rest, Stops rest →
      ∃ w, Blank w ∧
        parseMember (parseJson n) (s ++ rest) = some ((m.1, ofValue m.2), w ++ rest)
  | n, .members ms, s =>
    ∀ rounds data rest, s.length < rounds →
      parseMembers (parseJson n) rounds data (s ++ chr '}' :: rest) =
        some (.object (ofMembers data ms), rest)

theorem getNextToken_blank (hw : Blank w) (hc : ¬ IsBlank c) (rest : Bytes) :
    getNextToken (w ++ c :: rest) = some (c, rest) := by
  rw [getNextToken_append hw, getNextToken_cons hc]

theorem expect_append (expected : String) (res : Json) (rest : Bytes) :
    expect expected res (lit expected ++ rest) = some (res, rest) := by
  rw [expect, if_pos (List.prefix_append _ _), List.drop_left]

/-- What a value begins with decides how it is parsed. -/
theorem parseJson_cons (h : ¬ IsBlank ch) (rest : Bytes) :
    parseJson (n + 1) (ch :: rest) =
      if ch = chr '-' ∨ isDigit ch then parseNumber (ch :: rest)
      else if ch = chr 't' then expect "true" (.bool true) (ch :: rest)
      else if ch = chr 'f' then expect "false" (.bool false) (ch :: rest)
      else if ch = chr 'n' then expect "null" .null (ch :: rest)
      else if ch = chr '"' then (parseString none [] rest).map fun (v, rest) => (.string v, rest)
      else if ch = chr '{' then
        (getNextToken rest).bind fun (ch, after) =>
          if ch = chr '}' then some (.object [], after)
          else parseMembers (parseJson n) rest.length [] rest
      else if ch = chr '[' then
        (getNextToken rest).bind fun (ch, after) =>
          if ch = chr ']' then some (.array [], after)
          else parseElements (parseJson n) rest.length [] rest
      else none := by
  rw [parseJson, getNextToken_cons h]
  simp only [Option.bind_eq_bind, Option.bind_some]
  cases parseString none [] rest <;> rfl

theorem taken (h : Derives n p s) : Taken n p s := by
  induction h with
  | @null n =>
    intro rest hstop
    exact (parseJson_cons (by decide) _).trans (expect_append "null" .null rest)
  | @true n =>
    intro rest hstop
    exact (parseJson_cons (by decide) _).trans (expect_append "true" (.bool true) rest)
  | @false n =>
    intro rest hstop
    exact (parseJson_cons (by decide) _).trans (expect_append "false" (.bool false) rest)
  | @number s n h =>
    intro rest hstop
    obtain ⟨c, s', rfl, hc⟩ := number_cons h
    have hblank : ¬ IsBlank c := by
      obtain rfl | hc := hc
      · decide
      · exact (begins_digit (v := .null) hc).1
    rw [List.cons_append, parseJson_cons hblank, if_pos hc, ← List.cons_append,
      parseNumber_append h hstop, ofValue]
  | @string v s n h =>
    intro rest hstop
    obtain ⟨ps, rfl, rfl⟩ := text_cons h
    have hread := (parseString_spell ps rest).1 []
    rw [List.cons_append, parseJson_cons (by decide), List.append_assoc, List.singleton_append,
      hread]
    rfl
  | @emptyArray w n hw =>
    intro rest hstop
    have hnext : getNextToken (w ++ chr ']' :: rest) = some (chr ']', rest) :=
      getNextToken_blank hw (by decide) rest
    rw [List.cons_append, parseJson_cons (by decide), List.append_assoc, List.singleton_append,
      hnext]
    rfl
  | @array n vs s h ih =>
    intro rest hstop
    obtain ⟨w, c, s', hw, rfl, hc, hclose⟩ := h.begins
    have hnext : getNextToken (w ++ c :: s' ++ chr ']' :: rest) =
        some (c, s' ++ chr ']' :: rest) := by
      rw [List.append_assoc, List.cons_append, getNextToken_blank hw hc]
    have hrounds : (w ++ c :: s').length < (w ++ c :: s' ++ chr ']' :: rest).length := by
      simp
    rw [List.cons_append, parseJson_cons (by decide), List.append_assoc, List.singleton_append,
      hnext]
    simp only [Option.bind_some, if_neg hclose, ih _ _ _ hrounds]
    rfl
  | @emptyObject w n hw =>
    intro rest hstop
    have hnext : getNextToken (w ++ chr '}' :: rest) = some (chr '}', rest) :=
      getNextToken_blank hw (by decide) rest
    rw [List.cons_append, parseJson_cons (by decide), List.append_assoc, List.singleton_append,
      hnext]
    rfl
  | @object n ms s h ih =>
    intro rest hstop
    obtain ⟨w, c, s', hw, rfl, hc⟩ := h.begins
    obtain rfl : c = chr '"' := hc
    have hnext : getNextToken (w ++ chr '"' :: s' ++ chr '}' :: rest) =
        some (chr '"', s' ++ chr '}' :: rest) := by
      rw [List.append_assoc, List.cons_append, getNextToken_blank hw (by decide)]
    have hrounds : (w ++ chr '"' :: s').length <
        (w ++ chr '"' :: s' ++ chr '}' :: rest).length := by
      simp
    rw [List.cons_append, parseJson_cons (by decide), List.append_assoc, List.singleton_append,
      hnext]
    simp only [Option.bind_some, ih _ _ _ hrounds]
    rfl
  | @element w w' n v s hw hw' h ih =>
    intro rest hstop
    refine ⟨w', hw', ?_⟩
    rw [List.append_assoc, parseJson_append hw, List.append_assoc]
    exact ih _ (stops_append hw' hstop)
  | @lastElement n v s h ih =>
    intro rounds data rest hrounds
    obtain ⟨rounds, rfl⟩ := Nat.exists_eq_add_one.mpr (Nat.zero_lt_of_lt hrounds)
    obtain ⟨w, hw, hread⟩ := ih (chr ']' :: rest) (stops_cons (by decide) _)
    rw [parseElements, hread]
    simp only [Option.bind_eq_bind, Option.bind_some,
      getNextToken_blank hw (show ¬ IsBlank (chr ']') by decide), if_true]
    rfl
  | @elements n v s vs t h hs ih ihs =>
    intro rounds data rest hrounds
    obtain ⟨rounds, rfl⟩ := Nat.exists_eq_add_one.mpr (Nat.zero_lt_of_lt hrounds)
    obtain ⟨w, hw, hread⟩ := ih (chr ',' :: (t ++ chr ']' :: rest)) (stops_cons (by decide) _)
    have hlast : t.length < rounds := by
      simp only [List.length_append, List.length_cons] at hrounds
      omega
    rw [parseElements, List.append_assoc, List.cons_append, hread]
    simp only [Option.bind_eq_bind, Option.bind_some,
      getNextToken_blank hw (show ¬ IsBlank (chr ',') by decide)]
    rw [if_neg (by decide), if_neg (by decide), ihs _ _ _ hlast]
    simp [ofElements]
  | @member w w' key k n v s hw hw' hk h ih =>
    intro rest hstop
    obtain ⟨ps, rfl, rfl⟩ := text_cons hk
    obtain ⟨w'', hw'', hread⟩ := ih rest hstop
    refine ⟨w'', hw'', ?_⟩
    have hname := (parseString_spell ps (w' ++ chr ':' :: (s ++ rest))).1 []
    have hcolon : getNextToken (w' ++ chr ':' :: (s ++ rest)) = some (chr ':', s ++ rest) :=
      getNextToken_blank hw' (by decide) _
    simp only [List.append_assoc, List.cons_append, List.nil_append]
    rw [parseMember, getNextToken_blank hw (by decide)]
    simp only [Option.bind_eq_bind, Option.bind_some, hname, hcolon, hread, ne_eq,
      not_true_eq_false, if_false]
    rfl
  | @lastMember n m s h ih =>
    intro rounds data rest hrounds
    obtain ⟨rounds, rfl⟩ := Nat.exists_eq_add_one.mpr (Nat.zero_lt_of_lt hrounds)
    obtain ⟨w, hw, hread⟩ := ih (chr '}' :: rest) (stops_cons (by decide) _)
    rw [parseMembers_eq, hread]
    simp only [Option.bind_eq_bind, Option.bind_some,
      getNextToken_blank hw (show ¬ IsBlank (chr '}') by decide), if_true]
    rfl
  | @members n m s ms t h hs ih ihs =>
    intro rounds data rest hrounds
    obtain ⟨rounds, rfl⟩ := Nat.exists_eq_add_one.mpr (Nat.zero_lt_of_lt hrounds)
    obtain ⟨w, hw, hread⟩ := ih (chr ',' :: (t ++ chr '}' :: rest)) (stops_cons (by decide) _)
    have hlast : t.length < rounds := by
      simp only [List.length_append, List.length_cons] at hrounds
      omega
    rw [parseMembers_eq, List.append_assoc, List.cons_append, hread]
    simp only [Option.bind_eq_bind, Option.bind_some,
      getNextToken_blank hw (show ¬ IsBlank (chr ',') by decide)]
    rw [if_neg (by decide), if_neg (by decide), ihs _ _ _ hlast]
    simp [ofMembers]

-- ---------------------------------------------------------------------------
-- What is parsed the grammar derives
-- ---------------------------------------------------------------------------

theorem of_expect (h : expect expected res str = some (j, rest)) :
    str = lit expected ++ rest ∧ j = res := by
  rw [expect] at h
  split at h
  · rename_i hprefix
    obtain ⟨rest', rfl⟩ := hprefix
    rw [List.drop_left] at h
    cases h
    exact ⟨rfl, rfl⟩
  · cases h

/-- A parser that reads nothing but values of up to the given number of levels. -/
def Sound (n : Nat) (pj : Bytes → Option (Json × Bytes)) : Prop :=
  ∀ {str j rest}, pj str = some (j, rest) →
    ∃ w v s, Blank w ∧ Derives n (.value v) s ∧ str = w ++ (s ++ rest) ∧ j = ofValue v

section
variable {n : Nat} {pj : Bytes → Option (Json × Bytes)}

theorem of_parseElements (hpj : Sound n pj)
    (h : parseElements pj rounds data str = some (j, rest)) :
    ∃ vs s, Derives n (.elements vs) s ∧ str = s ++ chr ']' :: rest ∧
      j = .array (data ++ ofElements vs) := by
  induction rounds generalizing data str with
  | zero => cases h
  | succ rounds ih =>
    rw [parseElements] at h
    obtain ⟨⟨j', str'⟩, hvalue, hbehind⟩ := Option.bind_eq_some_iff.mp h
    obtain ⟨⟨ch, str''⟩, hnext, hround⟩ := Option.bind_eq_some_iff.mp hbehind
    obtain ⟨w, v, s, hw, hv, rfl, rfl⟩ := hpj hvalue
    obtain ⟨w', hw', -, rfl⟩ := of_getNextToken hnext
    have hfirst : Derives n (.element v) (w ++ (s ++ w')) := .element hw hw' hv
    simp only at hround
    split at hround
    · rename_i hch
      obtain rfl := hch
      cases hround
      exact ⟨[v], _, .lastElement hfirst, by simp, rfl⟩
    split at hround
    · cases hround
    · rename_i hch
      obtain rfl := not_not.mp hch
      obtain ⟨vs, t, hvs, rfl, rfl⟩ := ih hround
      exact ⟨v :: vs, _, .elements hfirst hvs, by simp, by simp [ofElements]⟩

theorem of_parseMember (hpj : Sound n pj) (h : parseMember pj str = some (m, rest)) :
    ∃ key v s, m = (key, ofValue v) ∧ str = s ++ rest ∧
      ∀ w, Blank w → Derives n (.member (key, v)) (s ++ w) := by
  rw [parseMember] at h
  obtain ⟨⟨ch, str'⟩, hquote, hname⟩ := Option.bind_eq_some_iff.mp h
  obtain ⟨w, hw, -, rfl⟩ := of_getNextToken hquote
  simp only at hname
  split at hname
  · cases hname
  rename_i hch
  obtain rfl := not_not.mp hch
  obtain ⟨⟨key, str''⟩, hkey, hbehind⟩ := Option.bind_eq_some_iff.mp hname
  obtain ⟨ps, rfl⟩ := spell_of_parseString hkey
  rw [(parseString_spell ps str'').1 []] at hkey
  cases hkey
  obtain ⟨⟨ch, str⟩, hcolon, hafter⟩ := Option.bind_eq_some_iff.mp hbehind
  obtain ⟨w', hw', -, rfl⟩ := of_getNextToken hcolon
  simp only at hafter
  split at hafter
  · cases hafter
  rename_i hch
  obtain rfl := not_not.mp hch
  obtain ⟨⟨j, str⟩, hvalue, hm⟩ := Option.bind_eq_some_iff.mp hafter
  obtain ⟨w'', v, s, hw'', hv, rfl, rfl⟩ := hpj hvalue
  cases hm
  refine ⟨meaning ps, v, w ++ (quoted ps ++ (w' ++ chr ':' :: (w'' ++ s))), rfl,
    by simp [quoted], ?_⟩
  intro w3 hw3
  simpa using Derives.member hw hw' (.quoted ps) (.element hw'' hw3 hv)

theorem of_parseMembers (hpj : Sound n pj)
    (h : parseMembers pj rounds data str = some (j, rest)) :
    ∃ ms s, Derives n (.members ms) s ∧ str = s ++ chr '}' :: rest ∧
      j = .object (ofMembers data ms) := by
  induction rounds generalizing data str with
  | zero => cases h
  | succ rounds ih =>
    rw [parseMembers_eq] at h
    obtain ⟨⟨m, str'⟩, hmember, hbehind⟩ := Option.bind_eq_some_iff.mp h
    obtain ⟨⟨ch, str''⟩, hnext, hround⟩ := Option.bind_eq_some_iff.mp hbehind
    obtain ⟨key, v, s, rfl, rfl, hv⟩ := of_parseMember hpj hmember
    obtain ⟨w, hw, -, rfl⟩ := of_getNextToken hnext
    have hfirst : Derives n (.member (key, v)) (s ++ w) := hv w hw
    simp only at hround
    split at hround
    · rename_i hch
      obtain rfl := hch
      cases hround
      exact ⟨[(key, v)], _, .lastMember hfirst, by simp, rfl⟩
    split at hround
    · cases hround
    · rename_i hch
      obtain rfl := not_not.mp hch
      obtain ⟨ms, t, hms, rfl, rfl⟩ := ih hround
      exact ⟨(key, v) :: ms, _, .members hfirst hms, by simp, by simp [ofMembers]⟩

end

theorem sound (n : Nat) : Sound n (parseJson n) := by
  induction n with
  | zero =>
    intro str j rest h
    cases h
  | succ n ih =>
    intro str j rest h
    obtain ⟨⟨ch, after⟩, hfirst, -⟩ := Option.bind_eq_some_iff.mp
      (show (getNextToken str).bind _ = some (j, rest) from h)
    obtain ⟨w, hw, hch, rfl⟩ := of_getNextToken hfirst
    rw [parseJson_append hw, parseJson_cons hch] at h
    split at h
    · obtain ⟨s, hs, hstr, rfl⟩ := of_parseNumber h
      exact ⟨w, .number s hs, s, hw, .number hs, by rw [hstr], rfl⟩
    split at h
    · obtain ⟨hstr, rfl⟩ := of_expect h
      exact ⟨w, .bool true, _, hw, .true, by rw [hstr], rfl⟩
    split at h
    · obtain ⟨hstr, rfl⟩ := of_expect h
      exact ⟨w, .bool false, _, hw, .false, by rw [hstr], rfl⟩
    split at h
    · obtain ⟨hstr, rfl⟩ := of_expect h
      exact ⟨w, .null, _, hw, .null, by rw [hstr], rfl⟩
    split at h
    · rename_i hquote
      obtain rfl := hquote
      obtain ⟨⟨text, rest'⟩, htext, heq⟩ := Option.map_eq_some_iff.mp h
      cases heq
      obtain ⟨ps, rfl⟩ := spell_of_parseString htext
      rw [(parseString_spell ps rest).1 []] at htext
      cases htext
      exact ⟨w, .string (meaning ps), quoted ps, hw, .string (.quoted ps), by simp [quoted], rfl⟩
    split at h
    · rename_i hopen
      obtain rfl := hopen
      obtain ⟨⟨ch, behind⟩, hnext, hmembers⟩ := Option.bind_eq_some_iff.mp h
      simp only at hmembers
      split at hmembers
      · rename_i hclose
        obtain rfl := hclose
        cases hmembers
        obtain ⟨w', hw', -, rfl⟩ := of_getNextToken hnext
        exact ⟨w, .object [], _, hw, .emptyObject hw', by simp, rfl⟩
      · obtain ⟨ms, s, hms, rfl, rfl⟩ := of_parseMembers ih hmembers
        exact ⟨w, .object ms, _, hw, .object hms, by simp, rfl⟩
    split at h
    · rename_i hopen
      obtain rfl := hopen
      obtain ⟨⟨ch, behind⟩, hnext, helements⟩ := Option.bind_eq_some_iff.mp h
      simp only at helements
      split at helements
      · rename_i hclose
        obtain rfl := hclose
        cases helements
        obtain ⟨w', hw', -, rfl⟩ := of_getNextToken hnext
        exact ⟨w, .array [], _, hw, .emptyArray hw', by simp, rfl⟩
      · obtain ⟨vs, s, hvs, rfl, rfl⟩ := of_parseElements ih helements
        exact ⟨w, .array vs, _, hw, .array hvs, by simp, rfl⟩
    · cases h

-- ---------------------------------------------------------------------------
-- Texts
-- ---------------------------------------------------------------------------

theorem consumeWhitespace_blank (hw : Blank w) : consumeWhitespace w = [] := by
  simpa [consumeWhitespace] using consumeWhitespace_append hw []

theorem blank_of_consumeWhitespace (h : consumeWhitespace s = []) : Blank s := by
  induction s with
  | nil => exact blank_nil
  | cons c s ih =>
    rw [consumeWhitespace] at h
    split at h
    · exact List.forall_mem_cons.mpr ⟨‹_›, ih h⟩
    · cases h

theorem parse_eq_some_iff :
    parse input = some j ↔
      ∃ rest, parseJson (maxDepth + 1) input = some (j, rest) ∧ consumeWhitespace rest = [] := by
  rw [parse]
  cases parseJson (maxDepth + 1) input with
  | none => simp
  | some read =>
    obtain ⟨value, rest⟩ := read
    simp only [Option.bind_eq_bind, Option.bind_some]
    split <;> simp_all

/-- The parser accepts the texts of the grammar that nest no deeper than it
goes, and yields what they spell. -/
theorem parse_iff (input : Bytes) (j : Json) :
    parse input = some j ↔ ∃ v, Document (maxDepth + 1) v input ∧ j = ofValue v := by
  rw [parse_eq_some_iff]
  constructor
  · rintro ⟨rest, hread, hrest⟩
    obtain ⟨w, v, s, hw, hv, rfl, rfl⟩ := sound (maxDepth + 1) hread
    exact ⟨v, .element hw (blank_of_consumeWhitespace hrest) hv, rfl⟩
  · rintro ⟨v, hdoc, rfl⟩
    obtain ⟨w, hw, hread⟩ := taken hdoc [] (by decide)
    rw [List.append_nil, List.append_nil] at hread
    exact ⟨w, hread, consumeWhitespace_blank hw⟩

theorem ofValue_unique (h : Document n v s) (h' : Document m w s) : ofValue v = ofValue w := by
  obtain ⟨ws, -, hread⟩ := taken (h.mono (Nat.le_max_left n m)) [] (by decide)
  obtain ⟨ws', -, hread'⟩ := taken (h'.mono (Nat.le_max_right n m)) [] (by decide)
  rw [hread] at hread'
  exact congrArg Prod.fst (Option.some.inj hread')

theorem ne_zero_of_parse (h : parse input = some j) : (0 : UInt8) ∉ input := by
  obtain ⟨v, hdoc, -⟩ := (parse_iff input j).mp h
  exact fun hc => hdoc.ne_zero 0 hc rfl

theorem parse_render (h : v.depth ≤ maxDepth + 1) : parse v.render = some (ofValue v) :=
  (parse_iff v.render _).mpr ⟨v, (derives_render v h).bare, rfl⟩

-- ---------------------------------------------------------------------------
-- What the accessors read
-- ---------------------------------------------------------------------------

theorem parsed_document (h : Document (maxDepth + 1) v s) : parsed s = ofValue v := by
  rw [parsed, (parse_iff s (ofValue v)).mpr ⟨v, h, rfl⟩, Option.getD_some]

theorem find_assign (data : List (Bytes × Json)) (key : Bytes) (j : Json) (name : Bytes) :
    ((assign data key j).find? (·.1 = name)).map Prod.snd =
      if key = name then some j else (data.find? (·.1 = name)).map Prod.snd := by
  rw [assign, List.find?_append]
  by_cases hkey : key = name
  · subst hkey
    have hnone : (data.filter (·.1 ≠ key)).find? (·.1 = key) = none := by
      simp [List.find?_eq_none]
    rw [hnone, if_pos rfl]
    simp
  · have hkept : (data.filter (·.1 ≠ key)).find? (·.1 = name) = data.find? (·.1 = name) := by
      rw [List.find?_filter]
      congr 1
      funext m
      by_cases hm : m.1 = name
      · have hname : name ≠ key := fun h => hkey h.symm
        simp [hm, hname]
      · simp [hm]
    rw [hkept, if_neg hkey]
    simp [hkey]

theorem find_ofMembers (ms : List (Bytes × Value)) (data : List (Bytes × Json)) (name : Bytes) :
    ((ofMembers data ms).find? (·.1 = name)).map Prod.snd =
      ((KeyStore.latest name ms).map ofValue).or ((data.find? (·.1 = name)).map Prod.snd) := by
  induction ms generalizing data with
  | nil =>
    rw [ofMembers]
    rfl
  | cons m ms ih =>
    rw [ofMembers, ih, find_assign, KeyStore.latest, KeyStore.latest, List.filterMap_cons]
    by_cases hm : m.1 = name
    · simp only [if_pos hm, List.getLast?_cons]
      cases (ms.filterMap fun p => if p.1 = name then some p.2 else none).getLast? <;> rfl
    · simp only [if_neg hm]

theorem get_ofValue (h : v.member (lit name) = some w) : (ofValue v).get name = ofValue w := by
  cases v with
  | object ms =>
    have hfind := find_ofMembers ms [] (lit name)
    have h : KeyStore.latest (lit name) ms = some w := h
    rw [h, List.find?_nil, Option.map_none, Option.or_none, Option.map_some] at hfind
    rw [ofValue, Json.get, hfind, Option.getD_some]
  | null | bool | number | string | array => cases h

theorem isDigit_ne (hc : isDigit c = true) (hc' : isDigit c' = false) : c ≠ c' := by
  rintro rfl
  exact Bool.false_ne_true (hc'.symm.trans hc)

theorem atoi_intToString (n : Int) : atoi (intToString n) = n := by
  rw [atoi]
  cases n with
  | ofNat n =>
    have hpeek : peek (natToString n) ≠ chr '-' := by
      cases hn : natToString n with
      | nil => exact absurd hn (by simp [natToString])
      | cons c ds =>
        have hc : c ∈ natToString n := hn ▸ List.mem_cons_self
        exact isDigit_ne (isDigit_of_mem_natToString hc) rfl
    rw [intToString, if_neg hpeek, digitsValue_natToString]
    rfl
  | negSucc n =>
    have hpeek : peek (intToString (.negSucc n)) = chr '-' := rfl
    have hdrop : (intToString (.negSucc n)).drop 1 = natToString (n + 1) := rfl
    rw [if_pos hpeek, hdrop, digitsValue_natToString]
    rfl

/-- An integer is read as it was printed if it has at most nine characters. -/
theorem intValue_ofNumber [Floats] {n : Int} (h : (intToString n).length ≤ 9) :
    (ofNumber (intToString n)).intValue = n := by
  have hmarks : Unmarked (intToString n) := by
    intro c hc
    obtain rfl | hc := mem_intToString hc
    · decide
    · exact ⟨isDigit_ne hc rfl, isDigit_ne hc rfl, isDigit_ne hc rfl⟩
  rw [ofNumber, if_pos ⟨hmarks, h⟩, Json.intValue, atoi_intToString]

end Json11
