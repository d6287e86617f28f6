import TimeSeries.KeyMap
import TimeSeries.Proofs.Text.Encoded

/-!
# The order of texts is that of their bytes

Texts are compared code point by code point. Their UTF-8 bytes are in the same order: of two
characters the smaller one has fewer bytes and a smaller first byte, or as many bytes, and then the
first six bits that differ decide for both. So the keys of a map ascend byte by byte.
-/

namespace TimeSeries

namespace Text

theorem ofNat_cons_lt_cons {a b : Nat} (ha : a < 256) (hb : b < 256) (l m : List UInt8) :
    UInt8.ofNat a :: l < UInt8.ofNat b :: m ↔ a < b ∨ a = b ∧ l < m := by
  rw [List.cons_lt_cons_iff, UInt8.lt_iff_toNat_lt, ← UInt8.toNat_inj, UInt8.toNat_ofNat',
    UInt8.toNat_ofNat', Nat.mod_eq_of_lt ha, Nat.mod_eq_of_lt hb]

/-- Of the groups of six bits of two numbers, the first one that differs decides. -/
theorem sextets_lt {n k : Nat} (h : n < k) :
    n / 262144 < k / 262144 ∨ n / 262144 = k / 262144 ∧
      (n / 4096 % 64 < k / 4096 % 64 ∨ n / 4096 % 64 = k / 4096 % 64 ∧
        (n / 64 % 64 < k / 64 % 64 ∨ n / 64 % 64 = k / 64 % 64 ∧ n % 64 < k % 64)) := by
  have hlast {n k : Nat} (h : n < k) : n / 64 < k / 64 ∨ n / 64 = k / 64 ∧ n % 64 < k % 64 := by
    omega
  have htwelve (n : Nat) : n / 4096 = n / 64 / 64 := by omega
  have heighteen (n : Nat) : n / 262144 = n / 64 / 64 / 64 := by omega
  simp only [htwelve, heighteen]
  rcases hlast h with h | h
  · rcases hlast h with h | h
    · have := hlast h
      omega
    · omega
  · omega

/-- The bytes of the smaller character come first, whatever follows them. -/
theorem utf8EncodeChar_append_lt {c d : Char} (h : c < d) (l m : List UInt8) :
    String.utf8EncodeChar c ++ l < String.utf8EncodeChar d ++ m := by
  have hlt : c.val.toNat < d.val.toNat := h
  have hd : d.val.toNat < 0x110000 := by
    have hvalid := d.valid
    unfold UInt32.isValidChar Nat.isValidChar at hvalid
    omega
  have hsextets := sextets_lt hlt
  have hfirst {n : Nat} (hn : n < 0x110000) : n / 262144 % 8 = n / 262144 := by omega
  simp only [String.utf8EncodeChar, hfirst hd, hfirst (Nat.lt_trans hlt hd)]
  split_ifs
  all_goals
    simp (disch := omega) only [List.cons_append, List.nil_append, ofNat_cons_lt_cons]
    omega

theorem flatMap_utf8EncodeChar_lt {l m : List Char} (h : l < m) :
    l.flatMap String.utf8EncodeChar < m.flatMap String.utf8EncodeChar := by
  induction l generalizing m with
  | nil =>
      cases m with
      | nil => exact absurd h (by decide)
      | cons d m =>
          obtain ⟨b, more, hb⟩ := List.exists_cons_of_ne_nil (String.utf8EncodeChar_ne_nil (c := d))
          rw [List.flatMap_nil, List.flatMap_cons, hb]
          exact List.nil_lt_cons b _
  | cons c l ih =>
      cases m with
      | nil => cases h
      | cons d m =>
          rw [List.flatMap_cons, List.flatMap_cons]
          rcases List.cons_lt_cons_iff.1 h with hlt | ⟨rfl, hlt⟩
          · exact utf8EncodeChar_append_lt hlt _ _
          · exact List.append_left_lt (ih hlt)

theorem utf8Bytes_lt {s t : String} (h : s < t) : utf8Bytes s < utf8Bytes t := by
  rw [utf8Bytes_eq_flatMap, utf8Bytes_eq_flatMap]
  exact flatMap_utf8EncodeChar_lt (String.lt_iff.1 h)

/-- The texts ascend strictly in the order of their bytes, so none of them occurs twice. -/
def Ascending (l : List String) : Prop := l.Pairwise fun s t => utf8Bytes s < utf8Bytes t

end Text

/-- Entries of a map that are left when some are taken out have ascending keys. -/
theorem KeyMap.ascending_filter {α : Type} (m : KeyMap α) (keep : String × α → Bool) :
    Text.Ascending ((m.toList.filter keep).map Prod.fst) := by
  rw [Text.Ascending, List.pairwise_map]
  exact (m.ordered.filter keep).imp fun h => Text.utf8Bytes_lt h

end TimeSeries
