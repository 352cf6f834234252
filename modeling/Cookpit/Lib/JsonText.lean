import Cookpit.Lib.KeyStore
import Cookpit.Lib.Utf

/-!
# JSON texts

The grammar of JSON over bytes: which text spells which value. A value keeps
its numbers as text and its members in the order they are written in, also
those that share a name. Text in strings is kept as bytes; an escape
`\u` gives one UTF-16 code unit, and two that are a surrogate pair one
character (`meaning`).

`Derives` bounds the nesting, as parsers do. `render` writes every value in one
of its spellings (`derives_render`).
-/

namespace JsonText

open ByteString

-- ---------------------------------------------------------------------------
-- Blanks and numbers
-- ---------------------------------------------------------------------------

def IsBlank (c : UInt8) : Prop := c = 32 ∨ c = 13 ∨ c = 10 ∨ c = 9

instance (c : UInt8) : Decidable (IsBlank c) := inferInstanceAs (Decidable (_ ∨ _))

def Blank (s : Bytes) : Prop := ∀ c ∈ s, IsBlank c

theorem blank_nil : Blank [] := fun _ h => nomatch h

theorem blank_space : Blank [32] := by
  intro c hc
  obtain rfl := List.mem_singleton.mp hc
  exact .inl rfl

def Digits (s : Bytes) : Prop := s ≠ [] ∧ ∀ c ∈ s, isDigit c = true

inductive Integer : Bytes → Prop
  | zero : Integer [chr '0']
  | digits (h0 : c ≠ chr '0') (h : Digits (c :: s)) : Integer (c :: s)

inductive Fraction : Bytes → Prop
  | absent : Fraction []
  | digits (h : Digits s) : Fraction (chr '.' :: s)

inductive Exponent : Bytes → Prop
  | absent : Exponent []
  | digits (he : e = chr 'e' ∨ e = chr 'E')
      (hsign : sign = [] ∨ sign = [chr '+'] ∨ sign = [chr '-']) (h : Digits s) :
      Exponent (e :: (sign ++ s))

inductive Number : Bytes → Prop
  | parts (hsign : sign = [] ∨ sign = [chr '-']) (hi : Integer i) (hf : Fraction f)
      (he : Exponent e) : Number (sign ++ (i ++ (f ++ e)))

-- ---------------------------------------------------------------------------
-- Strings
-- ---------------------------------------------------------------------------

/-- What may follow a backslash, with the byte it stands for. -/
inductive Escape
  | quote
  | backslash
  | slash
  | backspace
  | formFeed
  | newline
  | carriageReturn
  | tab

def Escape.letter : Escape → UInt8
  | .quote => chr '"'
  | .backslash => chr '\\'
  | .slash => chr '/'
  | .backspace => chr 'b'
  | .formFeed => chr 'f'
  | .newline => chr 'n'
  | .carriageReturn => chr 'r'
  | .tab => chr 't'

def Escape.value : Escape → UInt8
  | .quote => chr '"'
  | .backslash => chr '\\'
  | .slash => chr '/'
  | .backspace => 8
  | .formFeed => 12
  | .newline => 10
  | .carriageReturn => 13
  | .tab => 9

def hexDigit (c : UInt8) : Option Nat :=
  if chr 'a' ≤ c ∧ c ≤ chr 'f' then some (c.toNat - (chr 'a').toNat + 10)
  else if chr 'A' ≤ c ∧ c ≤ chr 'F' then some (c.toNat - (chr 'A').toNat + 10)
  else if isDigit c then some (c.toNat - (chr '0').toNat)
  else none

def hexCode : Bytes → Option Nat
  | [a, b, c, d] => do
    return (((← hexDigit a) * 16 + (← hexDigit b)) * 16 + (← hexDigit c)) * 16 + (← hexDigit d)
  | _ => none

/-- Four hexadecimal digits and their value. -/
structure Hex where
  digits : Bytes
  code : Nat
  reads : hexCode digits = some code

/-- A byte that stands for itself. -/
def Plain (c : UInt8) : Prop := c ≠ chr '"' ∧ c ≠ chr '\\' ∧ ¬ c ≤ 0x1f

inductive Piece
  | raw (c : UInt8) (h : Plain c)
  | escape (e : Escape)
  | unit (u : Hex)

def Piece.spell : Piece → Bytes
  | .raw c _ => [c]
  | .escape e => [chr '\\', e.letter]
  | .unit u => chr '\\' :: chr 'u' :: u.digits

/-- The bytes a string's pieces stand for. -/
def meaning : List Piece → Bytes
  | [] => []
  | .raw c _ :: ps => c :: meaning ps
  | .escape e :: ps => e.value :: meaning ps
  | .unit u :: .unit v :: ps =>
    if Utf.High u.code ∧ Utf.Low v.code then Utf.encode8 (Utf.combine u.code v.code) ++ meaning ps
    else Utf.encode8 u.code ++ meaning (.unit v :: ps)
  | .unit u :: ps => Utf.encode8 u.code ++ meaning ps

/-- A unit that no other follows. -/
theorem meaning_lone {ps : List Piece} (h : ∀ v ps', ps ≠ .unit v :: ps') :
    meaning (.unit u :: ps) = Utf.encode8 u.code ++ meaning ps := by
  cases ps with
  | nil => simp [meaning]
  | cons p ps =>
    cases p with
    | raw | escape => simp [meaning]
    | unit v => exact absurd rfl (h v ps)

theorem meaning_unit (h : ¬ Utf.High u.code) (ps : List Piece) :
    meaning (.unit u :: ps) = Utf.encode8 u.code ++ meaning ps := by
  cases ps with
  | nil => simp [meaning]
  | cons p ps =>
    cases p with
    | raw | escape => simp [meaning]
    | unit v => rw [meaning, if_neg fun hpair => h hpair.1]

def quoted (ps : List Piece) : Bytes := chr '"' :: (ps.flatMap Piece.spell ++ [chr '"'])

inductive Text : Bytes → Bytes → Prop
  | quoted (ps : List Piece) : Text (meaning ps) (quoted ps)

-- ---------------------------------------------------------------------------
-- Values
-- ---------------------------------------------------------------------------

inductive Value
  | null
  | bool (value : Bool)
  | number (text : Bytes) (h : Number text)
  | string (value : Bytes)
  | array (values : List Value)
  | object (members : List (Bytes × Value))

/-- The value of a member; the last one of its name counts. -/
def Value.member (name : Bytes) : Value → Option Value
  | .object members => KeyStore.latest name members
  | _ => none

/-- What a text may be a text of. -/
inductive Phrase
  | value (v : Value)
  /-- A value between blanks. -/
  | element (v : Value)
  | elements (vs : List Value)
  | member (m : Bytes × Value)
  | members (ms : List (Bytes × Value))

/-- `s` spells the phrase with at most the given number of levels. -/
inductive Derives : Nat → Phrase → Bytes → Prop
  | null : Derives (n + 1) (.value .null) (lit "null")
  | true : Derives (n + 1) (.value (.bool true)) (lit "true")
  | false : Derives (n + 1) (.value (.bool false)) (lit "false")
  | number (h : Number s) : Derives (n + 1) (.value (.number s h)) s
  | string (h : Text v s) : Derives (n + 1) (.value (.string v)) s
  | emptyArray (h : Blank w) : Derives (n + 1) (.value (.array [])) (chr '[' :: (w ++ [chr ']']))
  | array (h : Derives n (.elements vs) s) :
      Derives (n + 1) (.value (.array vs)) (chr '[' :: (s ++ [chr ']']))
  | emptyObject (h : Blank w) :
      Derives (n + 1) (.value (.object [])) (chr '{' :: (w ++ [chr '}']))
  | object (h : Derives n (.members ms) s) :
      Derives (n + 1) (.value (.object ms)) (chr '{' :: (s ++ [chr '}']))
  | element (hw : Blank w) (hw' : Blank w') (h : Derives n (.value v) s) :
      Derives n (.element v) (w ++ (s ++ w'))
  | lastElement (h : Derives n (.element v) s) : Derives n (.elements [v]) s
  | elements (h : Derives n (.element v) s) (hs : Derives n (.elements vs) t) :
      Derives n (.elements (v :: vs)) (s ++ chr ',' :: t)
  | member (hw : Blank w) (hw' : Blank w') (hk : Text key k) (h : Derives n (.element v) s) :
      Derives n (.member (key, v)) (w ++ (k ++ (w' ++ chr ':' :: s)))
  | lastMember (h : Derives n (.member m) s) : Derives n (.members [m]) s
  | members (h : Derives n (.member m) s) (hs : Derives n (.members ms) t) :
      Derives n (.members (m :: ms)) (s ++ chr ',' :: t)

/-- A JSON text: one value between blanks. -/
def Document (levels : Nat) (v : Value) (s : Bytes) : Prop := Derives levels (.element v) s

-- ---------------------------------------------------------------------------
-- What texts are made of
-- ---------------------------------------------------------------------------

/-- The first byte of a phrase that is no blank. -/
def Begins : Phrase → UInt8 → Prop
  | .value _, c | .element _, c | .elements _, c => ¬ IsBlank c ∧ c ≠ chr ']'
  | .member _, c | .members _, c => c = chr '"'

theorem begins_digit (h : isDigit c = true) : Begins (.value v) c := by
  constructor
  · rintro (rfl | rfl | rfl | rfl) <;> exact absurd h (by decide)
  · rintro rfl
    exact absurd h (by decide)

theorem number_cons (h : Number s) :
    ∃ c rest, s = c :: rest ∧ (c = chr '-' ∨ isDigit c = true) := by
  obtain ⟨hsign, hi, hf, he⟩ := h
  obtain rfl | rfl := hsign
  · cases hi with
    | zero => exact ⟨chr '0', _, rfl, .inr rfl⟩
    | digits h0 hds => exact ⟨_, _, rfl, .inr (hds.2 _ List.mem_cons_self)⟩
  · exact ⟨chr '-', _, rfl, .inl rfl⟩

theorem text_cons (h : Text v s) :
    ∃ ps : List Piece, v = meaning ps ∧ s = chr '"' :: (ps.flatMap Piece.spell ++ [chr '"']) := by
  obtain ⟨ps⟩ := h
  exact ⟨ps, rfl, rfl⟩

/-- Behind blanks every phrase begins with a byte of its own. -/
theorem Derives.begins (h : Derives n p s) :
    ∃ w c rest, Blank w ∧ s = w ++ c :: rest ∧ Begins p c := by
  have front {w s : Bytes} (hw : Blank w) {p q : Phrase} (hpq : ∀ c, Begins p c → Begins q c)
      (t : Bytes) (ih : ∃ w c rest, Blank w ∧ s = w ++ c :: rest ∧ Begins p c) :
      ∃ w' c rest, Blank w' ∧ w ++ (s ++ t) = w' ++ c :: rest ∧ Begins q c := by
    obtain ⟨w', c, rest, hw', rfl, hc⟩ := ih
    refine ⟨w ++ w', c, rest ++ t, fun d hd => ?_, by simp, hpq c hc⟩
    exact (List.mem_append.mp hd).elim (hw d) (hw' d)
  induction h with
  | null => exact ⟨[], chr 'n', lit "ull", blank_nil, rfl, by decide, by decide⟩
  | true => exact ⟨[], chr 't', lit "rue", blank_nil, rfl, by decide, by decide⟩
  | false => exact ⟨[], chr 'f', lit "alse", blank_nil, rfl, by decide, by decide⟩
  | number h =>
    obtain ⟨c, rest, rfl, hc⟩ := number_cons h
    obtain rfl | hc := hc
    · exact ⟨[], _, rest, blank_nil, rfl, by decide, by decide⟩
    · exact ⟨[], c, rest, blank_nil, rfl, begins_digit hc⟩
  | string h =>
    obtain ⟨ps, -, rfl⟩ := text_cons h
    exact ⟨[], chr '"', _, blank_nil, rfl, by decide, by decide⟩
  | emptyArray | array => exact ⟨[], chr '[', _, blank_nil, rfl, by decide, by decide⟩
  | emptyObject | object => exact ⟨[], chr '{', _, blank_nil, rfl, by decide, by decide⟩
  | @element w w' n v s hw hw' h ih => exact front hw (fun _ => id) w' ih
  | lastElement h ih => exact ih
  | elements h hs ih => exact front blank_nil (fun _ => id) _ ih
  | @member w w' key k n v s hw hw' hk h ih =>
    obtain ⟨ps, -, rfl⟩ := text_cons hk
    exact ⟨w, chr '"', _, hw, rfl, rfl⟩
  | lastMember h ih => exact ih
  | members h hs ih => exact front blank_nil (fun _ => id) _ ih

theorem Derives.succ (h : Derives n p s) : Derives (n + 1) p s := by
  induction h with
  | null => exact .null
  | true => exact .true
  | false => exact .false
  | number h => exact .number h
  | string h => exact .string h
  | emptyArray h => exact .emptyArray h
  | array h ih => exact .array ih
  | emptyObject h => exact .emptyObject h
  | object h ih => exact .object ih
  | element hw hw' h ih => exact .element hw hw' ih
  | lastElement h ih => exact .lastElement ih
  | elements h hs ih ihs => exact .elements ih ihs
  | member hw hw' hk h ih => exact .member hw hw' hk ih
  | lastMember h ih => exact .lastMember ih
  | members h hs ih ihs => exact .members ih ihs

theorem Derives.mono (h : Derives n p s) (hle : n ≤ m) : Derives m p s := by
  induction hle with
  | refl => exact h
  | step hle ih => exact ih.succ

theorem ne_zero_of_all {s : Bytes} (h : s.all (· ≠ 0) = true) : ∀ c ∈ s, c ≠ 0 := by
  simpa using h

theorem Integer.all_digits (h : Integer i) : Digits i := by
  cases h with
  | zero => exact ⟨by simp, fun c hc => by rw [List.mem_singleton.mp hc]; rfl⟩
  | digits h0 h => exact h

theorem Digits.ne_zero (h : Digits s) : ∀ c ∈ s, c ≠ 0 := by
  rintro c hc rfl
  exact absurd (h.2 0 hc) (by decide)

theorem Number.ne_zero (h : Number s) : ∀ c ∈ s, c ≠ 0 := by
  obtain ⟨hsign, hi, hf, he⟩ := h
  rename_i sign i f e
  have hsign' : ∀ c ∈ sign, c ≠ 0 := by
    obtain rfl | rfl := hsign <;> exact ne_zero_of_all rfl
  have hi' : ∀ c ∈ i, c ≠ 0 := by
    cases hi with
    | zero => exact ne_zero_of_all rfl
    | digits h0 h => exact h.ne_zero
  have hf' : ∀ c ∈ f, c ≠ 0 := by
    cases hf with
    | absent => exact ne_zero_of_all rfl
    | digits h => exact List.forall_mem_cons.mpr ⟨by decide, h.ne_zero⟩
  have he' : ∀ c ∈ e, c ≠ 0 := by
    cases he with
    | absent => exact ne_zero_of_all rfl
    | digits he hsign h =>
      refine List.forall_mem_cons.mpr ⟨?_, List.forall_mem_append.mpr ⟨?_, h.ne_zero⟩⟩
      · obtain rfl | rfl := he <;> decide
      · obtain rfl | rfl | rfl := hsign <;> exact ne_zero_of_all rfl
  simp only [List.forall_mem_append]
  exact ⟨hsign', hi', hf', he'⟩

theorem Hex.ne_zero (u : Hex) : ∀ c ∈ u.digits, c ≠ 0 := by
  obtain ⟨digits, code, hreads⟩ := u
  match digits, hreads with
  | [a, b, c, d], hreads =>
    have hdigit : hexDigit 0 = none := by decide
    rintro x hx rfl
    simp only [List.mem_cons, List.not_mem_nil, or_false] at hx
    obtain rfl | rfl | rfl | rfl := hx <;>
      simp [hexCode, hdigit] at hreads

theorem Piece.ne_zero (p : Piece) : ∀ c ∈ p.spell, c ≠ 0 := by
  cases p with
  | raw c h =>
    rintro d hd rfl
    obtain rfl := List.mem_singleton.mp hd
    exact h.2.2 (by decide)
  | escape e => cases e <;> exact ne_zero_of_all rfl
  | unit u =>
    exact List.forall_mem_cons.mpr ⟨by decide, List.forall_mem_cons.mpr ⟨by decide, u.ne_zero⟩⟩

theorem Text.ne_zero (h : Text v s) : ∀ c ∈ s, c ≠ 0 := by
  obtain ⟨ps, -, rfl⟩ := text_cons h
  refine List.forall_mem_cons.mpr ⟨by decide, List.forall_mem_append.mpr ⟨?_, ne_zero_of_all rfl⟩⟩
  intro c hc
  obtain ⟨p, -, hp⟩ := List.mem_flatMap.mp hc
  exact p.ne_zero c hp

theorem Blank.ne_zero (h : Blank w) : ∀ c ∈ w, c ≠ 0 := by
  rintro c hc rfl
  exact absurd (h 0 hc) (by decide)

/-- No text has a NUL byte. -/
theorem Derives.ne_zero (h : Derives n p s) : ∀ c ∈ s, c ≠ 0 := by
  induction h with
  | null | true | false => exact ne_zero_of_all rfl
  | number h => exact h.ne_zero
  | string h => exact h.ne_zero
  | emptyArray h | emptyObject h =>
    exact List.forall_mem_cons.mpr
      ⟨by decide, List.forall_mem_append.mpr ⟨h.ne_zero, ne_zero_of_all rfl⟩⟩
  | array h ih | object h ih =>
    exact List.forall_mem_cons.mpr
      ⟨by decide, List.forall_mem_append.mpr ⟨ih, ne_zero_of_all rfl⟩⟩
  | element hw hw' h ih =>
    exact List.forall_mem_append.mpr ⟨hw.ne_zero, List.forall_mem_append.mpr ⟨ih, hw'.ne_zero⟩⟩
  | lastElement h ih | lastMember h ih => exact ih
  | elements h hs ih ihs | members h hs ih ihs =>
    exact List.forall_mem_append.mpr ⟨ih, List.forall_mem_cons.mpr ⟨by decide, ihs⟩⟩
  | member hw hw' hk h ih =>
    simp only [List.forall_mem_append, List.forall_mem_cons]
    exact ⟨hw.ne_zero, hk.ne_zero, hw'.ne_zero, by decide, ih⟩

-- ---------------------------------------------------------------------------
-- Rendering
-- ---------------------------------------------------------------------------

/-- A positive number is not printed with a zero in front. -/
theorem natToString_cons (h : 0 < n) : ∃ c ds, natToString n = c :: ds ∧ c ≠ chr '0' := by
  induction n using Nat.strongRecOn with
  | ind n ih =>
    by_cases hlt : n < 10
    · have hdigit : ∀ n : Fin 10, 0 < n → chr n.val.digitChar ≠ chr '0' := by decide
      refine ⟨chr n.digitChar, [], ?_, hdigit ⟨n, hlt⟩ h⟩
      rw [natToString, Nat.toDigits_of_lt_base hlt]
      rfl
    · obtain ⟨c, ds, hc, hzero⟩ := ih (n / 10) (by omega) (by omega)
      refine ⟨c, ds ++ [chr (n % 10).digitChar], ?_, hzero⟩
      rw [natToString, Nat.toDigits_of_base_le (by decide) (by omega), List.map_append]
      exact congrArg (· ++ _) hc

theorem integer_natToString (n : Nat) : Integer (natToString n) := by
  obtain rfl | h := Nat.eq_zero_or_pos n
  · exact .zero
  · obtain ⟨c, ds, hn, hzero⟩ := natToString_cons h
    have hdigits : Digits (natToString n) :=
      ⟨by simp [hn], fun _ => isDigit_of_mem_natToString⟩
    rw [hn] at hdigits ⊢
    exact .digits hzero hdigits

theorem integer_intToString (n : Int) : ∃ sign i,
    (sign = [] ∨ sign = [chr '-']) ∧ Integer i ∧ intToString n = sign ++ i := by
  cases n with
  | ofNat n => exact ⟨[], natToString n, .inl rfl, integer_natToString n, rfl⟩
  | negSucc n => exact ⟨[chr '-'], natToString (n + 1), .inr rfl, integer_natToString _, rfl⟩

theorem number_intToString (n : Int) : Number (intToString n) := by
  obtain ⟨sign, i, hsign, hi, hn⟩ := integer_intToString n
  rw [hn]
  simpa using Number.parts hsign hi .absent .absent

def hexChar (n : Nat) : UInt8 := if n < 10 then (n + 48).toUInt8 else (n + 87).toUInt8

def control (n : Fin 32) : Hex where
  digits := [chr '0', chr '0', hexChar (n / 16), hexChar (n % 16)]
  code := n
  reads := by
    revert n
    decide

/-- The piece a byte is written as. -/
def pieceOf (c : UInt8) : Piece :=
  if hq : c = chr '"' then .escape .quote
  else if hb : c = chr '\\' then .escape .backslash
  else if hc : c ≤ 0x1f then .unit (control ⟨c.toNat, Nat.lt_succ_of_le hc⟩)
  else .raw c ⟨hq, hb, hc⟩

def stringText (v : Bytes) : Bytes := quoted (v.map pieceOf)

theorem meaning_map_pieceOf (v : Bytes) : meaning (v.map pieceOf) = v := by
  induction v with
  | nil => rfl
  | cons c v ih =>
    rw [List.map_cons, pieceOf]
    split
    · rename_i hc
      simp [meaning, ih, hc, Escape.value]
    split
    · rename_i hc
      simp [meaning, ih, hc, Escape.value]
    split
    · rename_i hc
      have hle : c.toNat ≤ 31 := hc
      have hcode : Utf.encode8 c.toNat = [c] := by
        rw [Utf.encode8, if_pos (by omega)]
        simp
      rw [meaning_unit, ih]
      · exact congrArg (· ++ v) hcode
      · rintro ⟨h, -⟩
        have h : 0xD800 ≤ c.toNat := h
        omega
    · simp [meaning, ih]

theorem text_stringText (v : Bytes) : Text v (stringText v) := by
  have h := Text.quoted (v.map pieceOf)
  rwa [meaning_map_pieceOf] at h

mutual

/-- The number of levels of a value. -/
def Value.depth : Value → Nat
  | .array values => depthElements values + 1
  | .object members => depthMembers members + 1
  | _ => 1

def depthElements : List Value → Nat
  | [] => 0
  | v :: vs => max v.depth (depthElements vs)

def depthMembers : List (Bytes × Value) → Nat
  | [] => 0
  | m :: ms => max m.2.depth (depthMembers ms)

end

mutual

def Value.render : Value → Bytes
  | .null => lit "null"
  | .bool true => lit "true"
  | .bool false => lit "false"
  | .number text _ => text
  | .string value => stringText value
  | .array values => chr '[' :: (renderElements values ++ [chr ']'])
  | .object members => chr '{' :: (renderMembers members ++ [chr '}'])

def renderElements : List Value → Bytes
  | [] => []
  | [v] => v.render
  | v :: w :: vs => v.render ++ chr ',' :: renderElements (w :: vs)

def renderMembers : List (Bytes × Value) → Bytes
  | [] => []
  | [m] => stringText m.1 ++ chr ':' :: m.2.render
  | m :: m' :: ms => stringText m.1 ++ chr ':' :: m.2.render ++ chr ',' :: renderMembers (m' :: ms)

end

theorem Derives.bare (h : Derives n (.value v) s) : Derives n (.element v) s := by
  simpa using Derives.element blank_nil blank_nil h

theorem Derives.named (key : Bytes) (h : Derives n (.value v) s) :
    Derives n (.member (key, v)) (stringText key ++ chr ':' :: s) := by
  simpa using Derives.member blank_nil blank_nil (text_stringText key) h.bare

mutual

theorem derives_render : (v : Value) → v.depth ≤ n → Derives n (.value v) v.render
  | .null, h => by
    obtain ⟨n, rfl⟩ := Nat.exists_eq_add_one.mpr (h : 1 ≤ n)
    rw [Value.render]
    exact .null
  | .bool true, h => by
    obtain ⟨n, rfl⟩ := Nat.exists_eq_add_one.mpr (h : 1 ≤ n)
    rw [Value.render]
    exact .true
  | .bool false, h => by
    obtain ⟨n, rfl⟩ := Nat.exists_eq_add_one.mpr (h : 1 ≤ n)
    rw [Value.render]
    exact .false
  | .number text hnumber, h => by
    obtain ⟨n, rfl⟩ := Nat.exists_eq_add_one.mpr (h : 1 ≤ n)
    rw [Value.render]
    exact .number hnumber
  | .string value, h => by
    obtain ⟨n, rfl⟩ := Nat.exists_eq_add_one.mpr (h : 1 ≤ n)
    rw [Value.render]
    exact .string (text_stringText value)
  | .array [], h => by
    obtain ⟨n, rfl⟩ := Nat.exists_eq_add_one.mpr (h : 1 ≤ n)
    rw [Value.render, renderElements]
    exact .emptyArray blank_nil
  | .array (v :: vs), h => by
    rw [Value.depth] at h
    obtain ⟨n, rfl⟩ := Nat.exists_eq_add_one.mpr (Nat.zero_lt_of_lt h)
    rw [Value.render]
    exact .array (derives_renderElements v vs (Nat.le_of_succ_le_succ h))
  | .object [], h => by
    obtain ⟨n, rfl⟩ := Nat.exists_eq_add_one.mpr (h : 1 ≤ n)
    rw [Value.render, renderMembers]
    exact .emptyObject blank_nil
  | .object (m :: ms), h => by
    rw [Value.depth] at h
    obtain ⟨n, rfl⟩ := Nat.exists_eq_add_one.mpr (Nat.zero_lt_of_lt h)
    rw [Value.render]
    exact .object (derives_renderMembers m ms (Nat.le_of_succ_le_succ h))

theorem derives_renderElements : (v : Value) → (vs : List Value) → depthElements (v :: vs) ≤ n →
    Derives n (.elements (v :: vs)) (renderElements (v :: vs))
  | v, [], h => by
    rw [depthElements] at h
    rw [renderElements]
    exact .lastElement (derives_render v (Nat.max_le.mp h).1).bare
  | v, w :: vs, h => by
    rw [depthElements] at h
    rw [renderElements]
    exact .elements (derives_render v (Nat.max_le.mp h).1).bare
      (derives_renderElements w vs (Nat.max_le.mp h).2)

theorem derives_renderMembers : (m : Bytes × Value) → (ms : List (Bytes × Value)) →
    depthMembers (m :: ms) ≤ n → Derives n (.members (m :: ms)) (renderMembers (m :: ms))
  | (key, v), [], h => by
    rw [depthMembers] at h
    rw [renderMembers]
    exact .lastMember ((derives_render v (Nat.max_le.mp h).1).named key)
  | (key, v), m :: ms, h => by
    rw [depthMembers] at h
    rw [renderMembers]
    exact .members ((derives_render v (Nat.max_le.mp h).1).named key)
      (derives_renderMembers m ms (Nat.max_le.mp h).2)

end

end JsonText
