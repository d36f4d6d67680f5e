/-
**Messages of tags.**

A message is a row of tags with a word of zeros behind the last one.  A tag is a name, which is not
zero, the size of its value, a code, and the value; words are little-endian, and values are whole
words.  Whoever answers such a message may write another code and another value of the same size
into each tag: then the tags of the answer lie where those of the request lay, and the answer can be
read at the places where the request was written.

Main definitions:

* `TaggedMessage.bytesOf`, `TaggedMessage.wordOf` — little-endian words;
* `TaggedMessage.splice` — writing bytes into a block;
* `TaggedMessage.Tag`, `TaggedMessage.encode`, `TaggedMessage.parse` — messages, written and read;
* `TaggedMessage.Answers` — a row of tags that answers another.

Main results:

* `TaggedMessage.parse_encode`, `TaggedMessage.encode_of_parse` — **what was written is read**,
  whatever lies behind it, **and what is read was written**;
* `TaggedMessage.length_encodeTags_of_answers` — **answers have the size of the request.**
-/

import Mathlib.Algebra.Group.Nat.Defs
import Mathlib.Data.List.Forall2
import Mathlib.Order.Basic
import Mathlib.Tactic.Common

set_option relaxedAutoImplicit false
set_option autoImplicit false

namespace TaggedMessage

/-- Bytes in a row. -/
abbrev Bytes := List (BitVec 8)

/-! ### Words -/

/-- The bytes of a word, the lowest first. -/
def bytesOf (w : BitVec 32) : Bytes :=
  [w.extractLsb' 0 8, w.extractLsb' 8 8, w.extractLsb' 16 8, w.extractLsb' 24 8]

/-- The word in the first four bytes. -/
def wordOf : Bytes → BitVec 32
  | b₀ :: b₁ :: b₂ :: b₃ :: _ => b₃ ++ b₂ ++ b₁ ++ b₀
  | _ => 0

@[simp] theorem length_bytesOf (w : BitVec 32) : (bytesOf w).length = 4 := rfl

/-- A word is read as it was written. -/
@[simp] theorem wordOf_bytesOf_append (w : BitVec 32) (bs : Bytes) :
    wordOf (bytesOf w ++ bs) = w := by
  change w.extractLsb' 24 8 ++ w.extractLsb' 16 8 ++ w.extractLsb' 8 8 ++ w.extractLsb' 0 8 = w
  have h₁ : w.extractLsb' 24 8 ++ w.extractLsb' 16 8 = w.extractLsb' 16 16 :=
    BitVec.extractLsb'_append_extractLsb'_eq_extractLsb' rfl
  have h₂ : w.extractLsb' 16 16 ++ w.extractLsb' 8 8 = w.extractLsb' 8 24 :=
    BitVec.extractLsb'_append_extractLsb'_eq_extractLsb' rfl
  have h₃ : w.extractLsb' 8 24 ++ w.extractLsb' 0 8 = w.extractLsb' 0 32 :=
    BitVec.extractLsb'_append_extractLsb'_eq_extractLsb' rfl
  rw [h₁, h₂, h₃]
  exact BitVec.extractLsb'_eq_self

@[simp] theorem drop_bytesOf_append (w : BitVec 32) (bs : Bytes) (n : ℕ) :
    (bytesOf w ++ bs).drop (n + 4) = bs.drop n := rfl

@[simp] theorem wordOf_bytesOf (w : BitVec 32) : wordOf (bytesOf w) = w := by
  have happend := wordOf_bytesOf_append w []
  rwa [List.append_nil] at happend

/-- Four bytes are those of their word. -/
theorem bytesOf_wordOf {bs : Bytes} (h : 4 ≤ bs.length) : bytesOf (wordOf bs) = bs.take 4 := by
  match bs, h with
  | b₀ :: b₁ :: b₂ :: b₃ :: _, _ =>
      have h₀ : (b₃ ++ b₂ ++ b₁ ++ b₀).extractLsb' 0 8 = b₀ := BitVec.extractLsb'_append_eq_right
      have h₁ : (b₃ ++ b₂ ++ b₁ ++ b₀).extractLsb' 8 8 = b₁ := by
        rw [BitVec.extractLsb'_append_eq_of_le (Nat.le_refl 8)]
        exact BitVec.extractLsb'_append_eq_right
      have h₂ : (b₃ ++ b₂ ++ b₁ ++ b₀).extractLsb' 16 8 = b₂ := by
        rw [BitVec.extractLsb'_append_eq_of_le (by decide),
          BitVec.extractLsb'_append_eq_of_le (by decide)]
        exact BitVec.extractLsb'_append_eq_right
      have h₃ : (b₃ ++ b₂ ++ b₁ ++ b₀).extractLsb' 24 8 = b₃ := by
        rw [BitVec.extractLsb'_append_eq_of_le (by decide),
          BitVec.extractLsb'_append_eq_of_le (by decide)]
        exact BitVec.extractLsb'_append_eq_left
      rw [bytesOf, wordOf, h₀, h₁, h₂, h₃]
      rfl

/-- Eight bytes are those of two words. -/
theorem take_two_words {bs : Bytes} (h : 8 ≤ bs.length) :
    bs.take 8 = bytesOf (wordOf bs) ++ bytesOf (wordOf (bs.drop 4)) := by
  have hdrop : 4 ≤ (bs.drop 4).length := by
    rw [List.length_drop]
    omega
  rw [bytesOf_wordOf (Nat.le_trans (by decide) h), bytesOf_wordOf hdrop, ← List.take_add]

/-- A word does not depend on what is behind it. -/
theorem wordOf_append {bs : Bytes} (h : 4 ≤ bs.length) (rest : Bytes) :
    wordOf (bs ++ rest) = wordOf bs := by
  match bs, h with
  | _ :: _ :: _ :: _ :: _, _ => rfl

/-! ### Blocks -/

/-- Writing `new` into `bs`, from the byte `off` on. -/
def splice (bs : Bytes) (off : ℕ) (new : Bytes) : Bytes :=
  bs.take off ++ (new ++ bs.drop (off + new.length))

theorem length_splice {bs new : Bytes} {off : ℕ} (h : off + new.length ≤ bs.length) :
    (splice bs off new).length = bs.length := by
  rw [splice, List.length_append, List.length_append, List.length_take, List.length_drop]
  omega

/-- Writing over a whole block. -/
theorem splice_all {bs new : Bytes} (h : new.length = bs.length) : splice bs 0 new = new := by
  rw [splice, List.take_zero, List.nil_append, Nat.zero_add, h, List.drop_length, List.append_nil]

/-- What is written behind bytes that were just written. -/
theorem splice_append (bs new new' : Bytes) {off : ℕ} (h : off ≤ bs.length) :
    splice (splice bs off new) (off + new.length) new' = splice bs off (new ++ new') := by
  have hlen : (bs.take off ++ new).length = off + new.length := by
    rw [List.length_append, List.length_take, Nat.min_eq_left h]
  have htake : (splice bs off new).take (off + new.length) = bs.take off ++ new := by
    rw [splice, ← List.append_assoc, List.take_left' hlen]
  have hdrop : (splice bs off new).drop (off + new.length + new'.length) =
      bs.drop (off + (new ++ new').length) := by
    rw [splice, ← List.append_assoc, ← List.drop_drop, List.drop_left' hlen, List.drop_drop,
      List.length_append, Nat.add_assoc]
  rw [splice, htake, hdrop, splice, List.append_assoc, List.append_assoc]

/-- Writing where there is room. -/
def overwrite (bs : Bytes) (off : ℕ) (new : Bytes) : Bytes :=
  if off + new.length ≤ bs.length then splice bs off new else bs

@[simp] theorem length_overwrite (bs : Bytes) (off : ℕ) (new : Bytes) :
    (overwrite bs off new).length = bs.length := by
  rw [overwrite]
  split
  · exact length_splice ‹_›
  · rfl

/-- Writing over the first bytes. -/
theorem overwrite_zero {bs new : Bytes} (h : new.length ≤ bs.length) :
    overwrite bs 0 new = new ++ bs.drop new.length := by
  have hroom : 0 + new.length ≤ bs.length := by rwa [Nat.zero_add]
  rw [overwrite, if_pos hroom, splice, List.take_zero, List.nil_append, Nat.zero_add]

/-! ### Tags -/

/-- A tag, which is not the end of a message. -/
@[ext] structure Tag where
  id : BitVec 32
  code : BitVec 32
  value : Bytes
  id_ne : id ≠ 0
  words : 4 ∣ value.length
  small : value.length < 2 ^ 32

/-- The bytes of a tag: its name, the size of its value, its code and its value. -/
def Tag.encode (t : Tag) : Bytes :=
  bytesOf t.id ++ (bytesOf (BitVec.ofNat 32 t.value.length) ++ (bytesOf t.code ++ t.value))

/-- The bytes of some tags in a row. -/
def encodeTags (tags : List Tag) : Bytes := tags.flatMap Tag.encode

/-- A message: the tags, and the end. -/
def encode (tags : List Tag) : Bytes := encodeTags tags ++ bytesOf 0

theorem length_take_drop {bs : Bytes} {k n : ℕ} (h : k + n ≤ bs.length) :
    ((bs.drop k).take n).length = n := by
  rw [List.length_take, List.length_drop]
  omega

/-- Reading a tag: the tag, and what is behind it. -/
def readTag (bs : Bytes) : Option (Tag × Bytes) :=
  if h : wordOf bs ≠ 0 ∧ 4 ∣ (wordOf (bs.drop 4)).toNat ∧
      12 + (wordOf (bs.drop 4)).toNat ≤ bs.length then
    some ({ id := wordOf bs
            code := wordOf (bs.drop 8)
            value := (bs.drop 12).take (wordOf (bs.drop 4)).toNat
            id_ne := h.1
            words := by rw [length_take_drop h.2.2]; exact h.2.1
            small := by rw [length_take_drop h.2.2]; exact (wordOf (bs.drop 4)).isLt },
      bs.drop (12 + (wordOf (bs.drop 4)).toNat))
  else none

/-- Reading so many tags at most, and the end. -/
def parseTags : ℕ → Bytes → Option (List Tag × Bytes)
  | 0, _ => none
  | k + 1, bs =>
      if bs.length < 4 then none
      else if wordOf bs = 0 then some ([], bs.drop 4)
      else do
        let (t, bs) ← readTag bs
        let (tags, rest) ← parseTags k bs
        return (t :: tags, rest)

/-- Reading a message: its tags, and what is behind the end. -/
def parse (bs : Bytes) : Option (List Tag × Bytes) := parseTags bs.length bs

theorem Tag.length_encode (t : Tag) : t.encode.length = 12 + t.value.length := by
  simp [encode]
  omega

/-- A tag is read as it was written. -/
theorem readTag_encode (t : Tag) (rest : Bytes) : readTag (t.encode ++ rest) = some (t, rest) := by
  have hid : wordOf (t.encode ++ rest) = t.id := by simp [Tag.encode]
  have hsize : wordOf ((t.encode ++ rest).drop 4) = BitVec.ofNat 32 t.value.length := by
    simp [Tag.encode]
  have hcode : wordOf ((t.encode ++ rest).drop 8) = t.code := by simp [Tag.encode]
  have hvalue : (t.encode ++ rest).drop 12 = t.value ++ rest := by simp [Tag.encode]
  have hnat : (BitVec.ofNat 32 t.value.length).toNat = t.value.length := by
    rw [BitVec.toNat_ofNat]
    exact Nat.mod_eq_of_lt t.small
  have hread : wordOf (t.encode ++ rest) ≠ 0 ∧
      4 ∣ (wordOf ((t.encode ++ rest).drop 4)).toNat ∧
      12 + (wordOf ((t.encode ++ rest).drop 4)).toNat ≤ (t.encode ++ rest).length := by
    rw [hid, hsize, hnat, List.length_append, t.length_encode]
    exact ⟨t.id_ne, t.words, Nat.le_add_right _ _⟩
  rw [readTag, dif_pos hread, Option.some.injEq, Prod.mk.injEq]
  constructor
  · ext1
    · exact hid
    · exact hcode
    · simp only [hsize, hnat, hvalue, List.take_left]
  · rw [hsize, hnat, ← List.drop_drop, hvalue, List.drop_left]

/-- **What was written is read**, whatever lies behind it. -/
theorem parse_encode (tags : List Tag) (rest : Bytes) :
    parse (encode tags ++ rest) = some (tags, rest) := by
  have hfuel : ∀ (tags : List Tag) k, tags.length < k →
      parseTags k (encode tags ++ rest) = some (tags, rest) := by
    intro tags
    induction tags with
    | nil =>
        intro k hk
        obtain ⟨k, rfl⟩ : ∃ k', k = k' + 1 := ⟨k - 1, by simp at hk; omega⟩
        rw [encode, encodeTags, List.flatMap_nil, List.nil_append, parseTags,
          if_neg (by simp), if_pos (wordOf_bytesOf_append 0 rest)]
        rfl
    | cons t tags ih =>
        intro k hk
        obtain ⟨k, rfl⟩ : ∃ k', k = k' + 1 := ⟨k - 1, by simp at hk; omega⟩
        have happend : encode (t :: tags) ++ rest = t.encode ++ (encode tags ++ rest) := by
          rw [encode, encode, encodeTags, List.flatMap_cons, ← encodeTags, List.append_assoc,
            List.append_assoc, List.append_assoc]
        have hlength : ¬ (t.encode ++ (encode tags ++ rest)).length < 4 := by
          rw [List.length_append, t.length_encode]
          omega
        have hid : wordOf (t.encode ++ (encode tags ++ rest)) = t.id := by simp [Tag.encode]
        rw [happend, parseTags, if_neg hlength, if_neg (by rw [hid]; exact t.id_ne), readTag_encode]
        simp only [Option.bind_eq_bind, Option.bind_some]
        rw [ih k (by simpa using hk)]
        rfl
  refine hfuel tags _ ?_
  have hlength : ∀ tags : List Tag, 12 * tags.length ≤ (encodeTags tags).length := by
    intro tags
    induction tags with
    | nil => exact Nat.zero_le _
    | cons t tags ih =>
        rw [encodeTags, List.flatMap_cons, ← encodeTags, List.length_append, t.length_encode,
          List.length_cons]
        omega
  have htags := hlength tags
  rw [encode, List.length_append, List.length_append, length_bytesOf]
  omega

/-- A tag that was read is what was there. -/
theorem encode_of_readTag {bs rest : Bytes} {t : Tag} (h : readTag bs = some (t, rest)) :
    t.encode ++ rest = bs := by
  rw [readTag] at h
  by_cases hread : wordOf bs ≠ 0 ∧ 4 ∣ (wordOf (bs.drop 4)).toNat ∧
      12 + (wordOf (bs.drop 4)).toNat ≤ bs.length
  · rw [dif_pos hread] at h
    cases h
    have hlong := hread.2.2
    have hsize : BitVec.ofNat 32 (wordOf (bs.drop 4)).toNat = wordOf (bs.drop 4) :=
      (BitVec.ofNat_toNat _ _).trans (BitVec.setWidth_eq _)
    have hvalue : (bs.drop 12).take (wordOf (bs.drop 4)).toNat ++
        bs.drop (12 + (wordOf (bs.drop 4)).toNat) = bs.drop 12 := by
      rw [← List.drop_drop, List.take_append_drop]
    have hword : ∀ k, k + 4 ≤ bs.length →
        bytesOf (wordOf (bs.drop k)) ++ bs.drop (k + 4) = bs.drop k := by
      intro k hk
      rw [bytesOf_wordOf (by rw [List.length_drop]; omega), ← List.drop_drop,
        List.take_append_drop]
    have hfirst := hword 0 (by omega)
    rw [List.drop_zero] at hfirst
    rw [Tag.encode, length_take_drop hlong, hsize, List.append_assoc, List.append_assoc,
      List.append_assoc, hvalue, hword 8 (by omega), hword 4 (by omega)]
    exact hfirst
  · rw [dif_neg hread] at h
    cases h

/-- **What was read is what was there**: messages that can be read are those that were written. -/
theorem encode_of_parse {bs rest : Bytes} {tags : List Tag} (h : parse bs = some (tags, rest)) :
    encode tags ++ rest = bs := by
  have hfuel : ∀ k (bs : Bytes) (tags : List Tag), parseTags k bs = some (tags, rest) →
      encode tags ++ rest = bs := by
    intro k
    induction k with
    | zero =>
        intro bs tags h
        cases h
    | succ k ih =>
        intro bs tags h
        rw [parseTags] at h
        split at h
        · cases h
        · rename_i hlong
          split at h
          · rename_i hend
            cases h
            have hword : bytesOf (wordOf bs) = bs.take 4 := bytesOf_wordOf (Nat.le_of_not_lt hlong)
            rw [hend] at hword
            rw [encode, encodeTags, List.flatMap_nil, List.nil_append, hword,
              List.take_append_drop]
          · obtain ⟨⟨t, bs'⟩, hread, h⟩ := Option.bind_eq_some_iff.1 h
            obtain ⟨⟨tags', rest'⟩, hparse, h⟩ := Option.bind_eq_some_iff.1 h
            cases h
            have hrest := ih _ _ hparse
            rw [encode] at hrest
            rw [encode, encodeTags, List.flatMap_cons, ← encodeTags, List.append_assoc,
              List.append_assoc, ← List.append_assoc (encodeTags tags'), hrest]
            exact encode_of_readTag hread
  exact hfuel _ _ _ h

/-- What is behind the end of a message takes up the rest. -/
theorem length_of_parse {bs rest : Bytes} {tags : List Tag} (h : parse bs = some (tags, rest)) :
    (encodeTags tags).length + 4 + rest.length = bs.length := by
  have hlength := congrArg List.length (encode_of_parse h)
  rwa [encode, List.length_append, List.length_append, length_bytesOf] at hlength

/-! ### Answers -/

/-- `t'` may answer `t`: another code, and another value of the same size. -/
def Answer (t t' : Tag) : Prop := t'.id = t.id ∧ t'.value.length = t.value.length

/-- A row of tags that answers another. -/
def Answers (tags tags' : List Tag) : Prop := List.Forall₂ Answer tags tags'

/-- **Answers have the size of the request.** -/
theorem length_encodeTags_of_answers {tags tags' : List Tag} (h : Answers tags tags') :
    (encodeTags tags').length = (encodeTags tags).length := by
  induction h with
  | nil => rfl
  | cons h _ ih =>
      rw [encodeTags, encodeTags, List.flatMap_cons, List.flatMap_cons, ← encodeTags, ← encodeTags,
        List.length_append, List.length_append, Tag.length_encode, Tag.length_encode, h.2, ih]

end TaggedMessage
