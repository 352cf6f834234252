import Cookpit.Djinni.Strings
import Cookpit.Json11.Grammar

/-!
# What Java sees of a string in an answer

A string literal of JSON denotes UTF-16: its characters, its escapes, and the
code units of its `\u` escapes. json11 turns it into bytes and djinni the bytes
into a Java string, which is the denoted text unit by unit up to its first NUL
(`fromCpp_parseString`): json11 joins the halves of a pair that are both escaped
and writes any other surrogate as three bytes, which djinni reads as one unit
again. Only the escape of a NUL is lost, with all that comes behind it.
-/

namespace Djinni

open ByteString JsonText Utf

/-- What a literal in UTF-8 is made of. -/
inductive Glyph
  | char (pt : Nat) (hpt : Point pt) (hplain : 0x20 ≤ pt ∧ pt ≠ 0x22 ∧ pt ≠ 0x5C)
  | escape (e : Escape)
  | unit (u : Hex)

/-- The UTF-16 units it denotes. -/
def Glyph.units : Glyph → Units
  | .char pt _ _ => encode16 pt
  | .escape e => [e.value.toNat.toUInt16]
  | .unit u => [u.code.toUInt16]

theorem plain_encode8 (hplain : 0x20 ≤ pt ∧ pt ≠ 0x22 ∧ pt ≠ 0x5C) (hpt : Point pt) :
    ∀ c ∈ encode8 pt, Plain c := by
  have hle : pt < 0x110000 := hpt
  have plain {n : Nat} (h : n < 256) (h20 : 0x20 ≤ n) (h22 : n ≠ 0x22) (h5C : n ≠ 0x5C) :
      Plain n.toUInt8 := by
    have hn : n.toUInt8.toNat = n := toNat_toUInt8 h
    refine ⟨fun he => ?_, fun he => ?_, fun he => ?_⟩
    · exact h22 (hn.symm.trans (congrArg UInt8.toNat he))
    · exact h5C (hn.symm.trans (congrArg UInt8.toNat he))
    · have : n.toUInt8.toNat ≤ 0x1f := he
      omega
  have high {n : Nat} (h : n < 256) (h80 : 0x80 ≤ n) : Plain n.toUInt8 :=
    plain h (by omega) (by omega) (by omega)
  rw [encode8]
  split
  · simp only [List.forall_mem_singleton]
    exact plain (by omega) hplain.1 hplain.2.1 hplain.2.2
  split
  · simp only [List.forall_mem_cons]
    exact ⟨high (by omega) (by omega), high (by omega) (by omega), by simp⟩
  split
  · simp only [List.forall_mem_cons]
    exact ⟨high (by omega) (by omega), high (by omega) (by omega), high (by omega) (by omega),
      by simp⟩
  · simp only [List.forall_mem_cons]
    exact ⟨high (by omega) (by omega), high (by omega) (by omega), high (by omega) (by omega),
      high (by omega) (by omega), by simp⟩

def Glyph.pieces : Glyph → List Piece
  | .char pt hpt hplain =>
    ((encode8 pt).attachWith Plain (plain_encode8 hplain hpt)).map fun c => .raw c.1 c.2
  | .escape e => [.escape e]
  | .unit u => [.unit u]

/-- The code points of the bytes json11 keeps. -/
def points : List Glyph → List Nat
  | [] => []
  | .char pt _ _ :: gs => pt :: points gs
  | .escape e :: gs => e.value.toNat :: points gs
  | .unit u :: .unit v :: gs =>
    if High u.code ∧ Low v.code then combine u.code v.code :: points gs
    else u.code :: points (.unit v :: gs)
  | .unit u :: gs => u.code :: points gs

theorem hexDigit_lt (h : hexDigit c = some n) : n < 16 := by
  rw [hexDigit] at h
  split at h
  · rename_i hc
    obtain ⟨h1, h2⟩ := hc
    have h1 : 97 ≤ c.toNat := h1
    have h2 : c.toNat ≤ 102 := h2
    have hsub : c.toNat - 97 + 10 = n := Option.some.inj h
    omega
  split at h
  · rename_i hc
    obtain ⟨h1, h2⟩ := hc
    have h1 : 65 ≤ c.toNat := h1
    have h2 : c.toNat ≤ 70 := h2
    have hsub : c.toNat - 65 + 10 = n := Option.some.inj h
    omega
  split at h
  · rename_i hc
    have hc : c ≤ 57 := (of_decide_eq_true hc).2
    have hc : c.toNat ≤ 57 := hc
    have hsub : c.toNat - 48 = n := Option.some.inj h
    omega
  · cases h

theorem code_lt (u : Hex) : u.code < 65536 := by
  obtain ⟨digits, code, hreads⟩ := u
  match digits, hreads with
  | [a, b, c, d], hreads =>
    simp only [hexCode, Option.bind_eq_bind, Option.bind_eq_some_iff] at hreads
    obtain ⟨ha, ha', hb, hb', hc, hc', hd, hd', hcode⟩ := hreads
    have ha16 := hexDigit_lt ha'
    have hb16 := hexDigit_lt hb'
    have hc16 := hexDigit_lt hc'
    have hd16 := hexDigit_lt hd'
    have hcode : ((ha * 16 + hb) * 16 + hc) * 16 + hd = code := Option.some.inj hcode
    show code < 65536
    omega

theorem encode16_combine (hu : High u) (hv : Low v) :
    encode16 (combine u v) = [u.toUInt16, v.toUInt16] := by
  simp only [High, Low] at hu hv
  have hhigh : (combine u v - 0x10000) / 0x400 + 0xD800 = u := by
    rw [combine]
    omega
  have hlow : combine u v % 0x400 + 0xDC00 = v := by
    rw [combine]
    omega
  have hle : ¬ combine u v < 0x10000 := by
    rw [combine]
    omega
  rw [encode16, if_neg hle, hhigh, hlow]

theorem encode16_of_lt (h : n < 65536) : encode16 n = [n.toUInt16] := if_pos h

theorem points_spec (gs : List Glyph) :
    (∀ pt ∈ points gs, Point pt) ∧ text16 (points gs) = gs.flatMap Glyph.units := by
  have cons {pt : Nat} {pts : List Nat} {us : Units} (hpt : Point pt)
      (h : (∀ q ∈ pts, Point q) ∧ text16 pts = us) :
      (∀ q ∈ pt :: pts, Point q) ∧ text16 (pt :: pts) = encode16 pt ++ us :=
    ⟨List.forall_mem_cons.mpr ⟨hpt, h.1⟩, congrArg (encode16 pt ++ ·) h.2⟩
  have hunit (u : Hex) : Point u.code := by
    have hlt := code_lt u
    simp only [Point]
    omega
  fun_induction points gs with
  | case1 => exact ⟨by simp, rfl⟩
  | case2 pt hpt hplain gs ih => exact cons hpt ih
  | case3 e gs ih =>
    have hlt : e.value.toNat < 256 := UInt8.toNat_lt _
    have hpoint : Point e.value.toNat := by
      simp only [Point]
      omega
    have hspec := cons hpoint ih
    rw [encode16_of_lt (by omega)] at hspec
    exact hspec
  | case4 u v gs hpair ih =>
    have hpoint : Point (combine u.code v.code) := by
      simp only [High, Low] at hpair
      simp only [Point, combine]
      omega
    have hspec := cons hpoint ih
    rw [encode16_combine hpair.1 hpair.2] at hspec
    exact hspec
  | case5 u v gs hpair ih =>
    have hspec := cons (hunit u) ih
    rw [encode16_of_lt (code_lt u)] at hspec
    exact hspec
  | case6 u gs hnext ih =>
    have hspec := cons (hunit u) ih
    rw [encode16_of_lt (code_lt u)] at hspec
    exact hspec

theorem meaning_char (pt : Nat) (hpt : Point pt)
    (hplain : 0x20 ≤ pt ∧ pt ≠ 0x22 ∧ pt ≠ 0x5C) (ps : List Piece) :
    meaning ((Glyph.char pt hpt hplain).pieces ++ ps) = encode8 pt ++ meaning ps := by
  have hraw (bytes : List { c // Plain c }) :
      meaning (bytes.map (fun c => Piece.raw c.1 c.2) ++ ps) =
        bytes.map (·.1) ++ meaning ps := by
    induction bytes with
    | nil => rfl
    | cons c bytes ih =>
      rw [List.map_cons, List.cons_append, meaning, ih]
      rfl
  rw [Glyph.pieces, hraw, List.attachWith_map_subtype_val]

theorem encode8_escape (e : Escape) : encode8 e.value.toNat = [e.value] := by
  cases e <;> decide

theorem meaning_pieces (gs : List Glyph) :
    meaning (gs.flatMap Glyph.pieces) = text8 (points gs) := by
  fun_induction points gs with
  | case1 => rfl
  | case2 pt hpt hplain gs ih =>
    rw [List.flatMap_cons, meaning_char, ih]
    rfl
  | case3 e gs ih =>
    rw [List.flatMap_cons, Glyph.pieces, List.singleton_append, meaning, ih, text8, text8,
      List.flatMap_cons, encode8_escape]
    rfl
  | case4 u v gs hpair ih =>
    rw [List.flatMap_cons, List.flatMap_cons, Glyph.pieces, Glyph.pieces, List.singleton_append,
      List.singleton_append, meaning, if_pos hpair, ih]
    rfl
  | case5 u v gs hpair ih =>
    rw [List.flatMap_cons, Glyph.pieces] at ih
    rw [List.flatMap_cons, List.flatMap_cons, Glyph.pieces, Glyph.pieces, List.singleton_append,
      List.singleton_append, meaning, if_neg hpair]
    exact congrArg (encode8 u.code ++ ·) ih
  | case6 u gs hnext ih =>
    have hlone : ∀ v ps, gs.flatMap Glyph.pieces ≠ .unit v :: ps := by
      intro v ps he
      cases gs with
      | nil => cases he
      | cons g gs =>
        rw [List.flatMap_cons] at he
        cases g with
        | char pt hpt hplain =>
          obtain ⟨c, bytes, hc⟩ := List.exists_cons_of_ne_nil (encode8_ne_nil pt)
          simp [Glyph.pieces, hc] at he
        | escape e => cases he
        | unit v => exact hnext v gs rfl
    rw [List.flatMap_cons, Glyph.pieces, List.singleton_append, meaning_lone hlone, ih]
    rfl

/-- The string read from a literal is the Java string the literal denotes, lone
surrogates included, up to its first NUL. -/
theorem fromCpp_parseString (gs : List Glyph) (rest : Bytes) :
    ∃ value, Json11.parseString none [] ((gs.flatMap Glyph.pieces).flatMap Piece.spell ++
        chr '"' :: rest) = some (value, rest) ∧
      fromCpp value = (gs.flatMap Glyph.units).takeWhile (· ≠ 0) := by
  obtain ⟨hpoints, hunits⟩ := points_spec gs
  refine ⟨_, (Json11.parseString_spell _ rest).1 [], ?_⟩
  rw [List.nil_append, meaning_pieces, fromCpp_text8 hpoints, ← hunits, takeWhile_text16 hpoints]

end Djinni
