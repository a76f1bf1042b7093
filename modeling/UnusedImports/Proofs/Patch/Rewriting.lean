import UnusedImports.Patch
import UnusedImports.Proofs.Diff.Readable
import UnusedImports.Proofs.Edit.Stages

/-!
# What becomes of a file

A file is rewritten completely or not at all. Bytes that are no text and edits that are refused
leave it as it is; otherwise the diff does not depend on whether the file is written
(`file_mends_or_leaves`). What is written are the old bytes with the encoded replacements in the
places of their stretches (`encode_spliced`), so the bytes between the edits stay the same.
-/

set_option autoImplicit false

namespace UnusedImports

/-! ## Bytes of a text -/

namespace Text

theorem encode_append (a b : Text) : encode (a ++ b) = encode a ++ encode b := by
  simp only [encode, String.toUTF8_eq_toByteArray, String.toByteArray_ofList,
    List.utf8Encode_append]

/-- Bytes are those of a text exactly if they are UTF-8. -/
theorem exists_encode_eq_iff {bytes : ByteArray} :
    (∃ t : Text, t.encode = bytes) ↔ bytes.IsValidUTF8 := by
  constructor
  · rintro ⟨t, rfl⟩
    exact (String.ofList t).isValidUTF8
  · intro h
    obtain ⟨t, ht⟩ : ∃ t, decode? bytes = some t := by
      rw [decode?, String.fromUTF8?, dif_pos h]
      exact ⟨_, rfl⟩
    exact ⟨t, encode_of_decode?_eq_some ht⟩

theorem decode?_eq_none_iff {bytes : ByteArray} : decode? bytes = none ↔ ¬ bytes.IsValidUTF8 := by
  rw [← exists_encode_eq_iff, not_exists]
  constructor
  · rintro h t rfl
    rw [decode?_encode] at h
    cases h
  · intro h
    cases hread : decode? bytes with
    | none => rfl
    | some t => exact absurd (encode_of_decode?_eq_some hread) (h t)

/-- The number of bytes in front of an offset. -/
def byteOffset (t : Text) (offset : Int) : Nat :=
  (encode (t.take offset.toNat)).size

/-- The bytes between two offsets are those of the characters between them. -/
theorem extract_encode (t : Text) {i j : Int} (h : i ≤ j) :
    (encode t).extract (byteOffset t i) (byteOffset t j) =
      encode ((t.take j.toNat).drop i.toNat) := by
  have hfront : t.take j.toNat = t.take i.toNat ++ (t.take j.toNat).drop i.toNat := by
    have htake : t.take i.toNat = (t.take j.toNat).take i.toNat := by
      rw [List.take_take, Nat.min_eq_left (Int.toNat_le_toNat h)]
    rw [htake, List.take_append_drop]
  have hj : byteOffset t j =
      byteOffset t i + (encode ((t.take j.toNat).drop i.toNat)).size := by
    rw [byteOffset, byteOffset, ← ByteArray.size_append, ← encode_append, ← hfront]
  have ht : encode t = encode (t.take i.toNat) ++
      (encode ((t.take j.toNat).drop i.toNat) ++ encode (t.drop j.toNat)) := by
    rw [← encode_append, ← encode_append, ← List.append_assoc, ← hfront, List.take_append_drop]
  rw [hj, ht, byteOffset]
  have hstart := @ByteArray.extract_append_size_add (encode (t.take i.toNat))
    (encode ((t.take j.toNat).drop i.toNat) ++ encode (t.drop j.toNat)) 0
    (encode ((t.take j.toNat).drop i.toNat)).size
  rw [Nat.add_zero] at hstart
  rw [hstart, ByteArray.extract_append_eq_left rfl]

end Text

namespace Edit

open Text

/-- The part of the bytes of a text behind `done` in which the encoded replacements of a sorted
batch stand in the places of their stretches. -/
def splicedBytes (t : Text) (bytes : ByteArray) (done : Int) : List Edit → ByteArray
  | [] => bytes.extract (byteOffset t done) bytes.size
  | e :: rest =>
    bytes.extract (byteOffset t done) (byteOffset t e.start) ++ e.replacement.encode
      ++ splicedBytes t bytes e.stop rest

/-- The bytes of a spliced text are the old bytes, spliced. -/
theorem encode_spliced {t : Text} {done : Int} {es : List Edit} (h : Tiled done t.length es) :
    (spliced t done es).encode = splicedBytes t t.encode done es := by
  induction es generalizing done with
  | nil =>
    have hend : byteOffset t t.length = t.encode.size := by
      rw [byteOffset, Int.toNat_natCast, List.take_length]
    have hlast := extract_encode t h
    rw [Int.toNat_natCast, List.take_length, hend] at hlast
    exact hlast.symm
  | cons e rest ih =>
    rw [spliced, splicedBytes, encode_append, encode_append, extract_encode t h.1, ih h.2.2]

end Edit

namespace Patch

open Text Edit

/-! ## Files -/

theorem read_encode (t : Text) : read (some t.encode) = .ok t := by
  rw [read]
  simp only [decode?_encode]

/-- The text of a file before and after the fixes. -/
theorem versions_encode (t : Text) (ds : List Diagnostic) :
    versions (some t.encode) ds =
      match applyAll t (Diagnostic.edits ds) with
      | .ok fixed => .ok (t, fixed)
      | .error r => .error (.refused r) := by
  rw [versions, read_encode]
  rfl

theorem file_encode_of_error {path t : Text} {ds : List Diagnostic} {r : Refusal}
    (h : applyAll t (Diagnostic.edits ds) = .error r) (dryRun : Bool) :
    file path (some t.encode) ds dryRun = (.error (.refused r), some t.encode) := by
  rw [file, versions_encode, h]

/-- The shortcut for a text that does not change makes no difference. -/
theorem file_encode_of_ok {path t fixed : Text} {ds : List Diagnostic}
    (h : applyAll t (Diagnostic.edits ds) = .ok fixed) (dryRun : Bool) :
    file path (some t.encode) ds dryRun =
      (.ok (Diff.unified path t fixed), some (if dryRun then t.encode else fixed.encode)) := by
  rw [file, versions_encode, h]
  simp only
  split
  · rename_i hsame
    rw [hsame, Diff.unified_eq_nil_iff.2 rfl, ite_self]
  · split <;> rfl

/-- Bytes that are not UTF-8, and edits of which one lies outside the text or two are not apart,
leave the file as it is. Otherwise the diff is the same whether the file is written or not, it is
empty exactly if nothing changes, and what is written is the encoded fixed text: the old bytes with
the encoded replacements in the places of their stretches. -/
theorem file_mends_or_leaves (path : Text) (bytes : ByteArray) (ds : List Diagnostic) :
    (¬ bytes.IsValidUTF8 →
      ∀ dryRun, file path (some bytes) ds dryRun = (.error .notUtf8, some bytes)) ∧
    ∀ t : Text, t.encode = bytes →
      (¬ ((∀ e ∈ Diagnostic.edits ds, e.Within t.length) ∧
          (Diagnostic.edits ds).Pairwise Apart) →
        ∃ r, applyAll t (Diagnostic.edits ds) = .error r ∧
          ∀ dryRun, file path (some bytes) ds dryRun = (.error (.refused r), some bytes)) ∧
      ((∀ e ∈ Diagnostic.edits ds, e.Within t.length) ∧ (Diagnostic.edits ds).Pairwise Apart →
        ∃ fixed diff, applyAll t (Diagnostic.edits ds) = .ok fixed ∧
          (diff = [] ↔ fixed = t) ∧
          file path (some bytes) ds true = (.ok diff, some bytes) ∧
          file path (some bytes) ds false = (.ok diff, some fixed.encode) ∧
          fixed.encode = splicedBytes t bytes 0 (inOrder (Diagnostic.edits ds))) := by
  refine ⟨fun hbytes dryRun => ?_, ?_⟩
  · rw [file, versions, read, decode?_eq_none_iff.2 hbytes]
    rfl
  · rintro t rfl
    rw [← applyAll_ok_iff]
    refine ⟨fun hrefused => ?_, ?_⟩
    · cases hresult : applyAll t (Diagnostic.edits ds) with
      | ok fixed => exact absurd ⟨fixed, hresult⟩ hrefused
      | error r => exact ⟨r, rfl, file_encode_of_error hresult⟩
    · rintro ⟨fixed, hfixed⟩
      have htiled := tiled_inOrder hfixed
      have hspliced : fixed = spliced t 0 (inOrder (Diagnostic.edits ds)) := by
        rw [htiled.applyAll_eq] at hfixed
        exact (Except.ok.inj hfixed).symm
      refine ⟨fixed, Diff.unified path t fixed, hfixed, Diff.unified_eq_nil_iff.trans eq_comm,
        file_encode_of_ok hfixed true, file_encode_of_ok hfixed false, ?_⟩
      rw [← encode_spliced htiled, ← hspliced]

/-- A text with a byte order mark and two characters at each line end. -/
def markedText : Text :=
  "\uFEFFimport a.x\r\nobject A\r\n".toList

/-- A diagnostic that removes the first line behind the mark. -/
def removal : Diagnostic where
  position := 8
  message := .null
  category := .null
  owner := .null
  origin := .null
  actions := [⟨[], [], ⟨1, 13, []⟩⟩]
  file := .null

/-- The mark and the other line end stay. -/
theorem file_markedText :
    ((∀ e ∈ Diagnostic.edits [removal], e.Within markedText.length) ∧
        (Diagnostic.edits [removal]).Pairwise Apart) ∧
      ∃ diff, diff ≠ [] ∧
        file "f".toList (some markedText.encode) [removal] true =
          (.ok diff, some markedText.encode) ∧
        file "f".toList (some markedText.encode) [removal] false =
          (.ok diff, some (encode "\uFEFFobject A\r\n".toList)) := by
  have hapart : (∀ e ∈ Diagnostic.edits [removal], e.Within markedText.length) ∧
      (Diagnostic.edits [removal]).Pairwise Apart := by
    refine ⟨?_, List.pairwise_singleton _ _⟩
    decide
  obtain ⟨fixed, diff, hfixed, hdiff, hdry, hwet, -⟩ :=
    ((file_mends_or_leaves "f".toList markedText.encode [removal]).2 markedText rfl).2 hapart
  have htext : fixed = "\uFEFFobject A\r\n".toList := by
    have hok : applyAll markedText (Diagnostic.edits [removal]) =
        .ok "\uFEFFobject A\r\n".toList := by
      have hedits : inOrder (Diagnostic.edits [removal]) = Diagnostic.edits [removal] :=
        List.mergeSort_singleton _
      rw [applyAll, hedits]
      rfl
    rw [hok] at hfixed
    exact (Except.ok.inj hfixed).symm
  rw [htext] at hdiff hwet
  exact ⟨hapart, diff, fun h => absurd (hdiff.1 h) (by decide), hdry, hwet⟩

end Patch

end UnusedImports
