import ImportLedger.Proofs.Encoding
import ImportLedger.Proofs.SourceLabels
import Mathlib.Data.List.DropRight

/-! Names of source files. Whether a file is searched is told from its name alone: from what follows
the last dot, if something stands before it. -/

namespace ImportLedger

open Text.Utf8

def sourceExtensions : List String := ["js", "mjs", "cjs", "jsx", "ts", "mts", "cts", "tsx"]

/-- A name with the extension of a source file, in capital or small letters, and something before
it. -/
def HasSourceExtension (name : String) : Prop :=
  ∃ stem extension, name.toList = stem ++ '.' :: extension ∧ stem ≠ [] ∧
    (String.ofList extension).map Char.toLower ∈ sourceExtensions

theorem dot_notMem_of_sourceExtensions {extension : List Char}
    (h : (String.ofList extension).map Char.toLower ∈ sourceExtensions) : '.' ∉ extension := by
  intro hm
  have hlower : '.' ∈ ((String.ofList extension).map Char.toLower).toList := by
    rw [String.toList_map, String.toList_ofList]
    exact List.mem_map_of_mem (f := Char.toLower) hm
  have hnone : ∀ e ∈ sourceExtensions, '.' ∉ e.toList := by decide
  exact hnone _ h hlower

namespace Language

theorem isSome_ofExtension? {extension : String} :
    (ofExtension? extension).isSome = true ↔ extension.map Char.toLower ∈ sourceExtensions := by
  rw [ofExtension?, sourceExtensions]
  split <;> simp_all

theorem ne_dot_of_mem_reverse {s : Bytes} (h : dot ∉ s) : ∀ b ∈ s.reverse, (b != dot) = true := by
  intro b hb
  refine bne_iff_ne.mpr fun he => h ?_
  exact he ▸ List.mem_reverse.mp hb

theorem extension?_of_notMem {name : Bytes} (h : dot ∉ name) : extension? name = none := by
  rw [extension?, List.dropWhile_eq_nil_iff.mpr (ne_dot_of_mem_reverse h)]

theorem extension?_append {stem extension : Bytes} (h : dot ∉ extension) :
    extension? (stem ++ dot :: extension) = if stem = [] then none else some extension := by
  have hne := ne_dot_of_mem_reverse h
  have hrev : (stem ++ dot :: extension).reverse = extension.reverse ++ dot :: stem.reverse := by
    simp
  rw [extension?, hrev, List.takeWhile_append_of_pos hne, List.dropWhile_append_of_pos hne,
    List.takeWhile_cons_of_neg (by simp), List.dropWhile_cons_of_neg (by simp)]
  cases stem using List.reverseRecOn with
  | nil => rfl
  | append_singleton stem b => simp

theorem dot_mem_encode {s : List Char} : dot ∈ encode s ↔ '.' ∈ s :=
  mem_encode_of_ascii (d := '.') (by decide)

theorem slash_mem_encode {s : List Char} : slash ∈ encode s ↔ '/' ∈ s :=
  mem_encode_of_ascii (d := '/') (by decide)

section EntryName

variable {name : String} (h : Path.isEntryName name = true)

include h

theorem fileName?_encode : fileName? (encode name.toList) = some (encode name.toList) := by
  have hslash : slash ∉ encode name.toList :=
    mt slash_mem_encode.mp (Path.slash_notMem_of_isEntryName h)
  have hne (s : String) (hs : s ≠ name) : encode name.toList ≠ encode s.toList := fun he =>
    hs (String.toList_injective (encode_injective he)).symm
  simp only [Path.isEntryName, Bool.and_eq_true, bne_iff_ne, ne_eq] at h
  obtain ⟨⟨⟨hempty, hdot⟩, hdots⟩, -⟩ := h
  have hempty' : encode name.toList ≠ [] := hne "" (Ne.symm hempty)
  have hdot' : encode name.toList ≠ [dot] := hne "." (Ne.symm hdot)
  have hdots' : encode name.toList ≠ [dot, dot] := hne ".." (Ne.symm hdots)
  rw [fileName?, List.splitOn_eq_singleton hslash]
  simp [hempty', hdot', hdots']

theorem ofPath?_eq : ofPath? name = (extension? (encode name.toList)).bind
    fun extension => (decode? extension).bind fun s => ofExtension? (String.ofList s) := by
  rw [ofPath?, ofPathBytes?, fileName?_encode h]
  rfl

theorem ofPath?_of_toList {stem extension : List Char} (hs : name.toList = stem ++ '.' :: extension)
    (he : '.' ∉ extension) :
    ofPath? name = if stem = [] then none else ofExtension? (String.ofList extension) := by
  have hbytes : encode name.toList = encode stem ++ dot :: encode extension := by
    rw [hs, encode_append]
    rfl
  have hnil : encode stem = [] ↔ stem = [] :=
    ⟨fun hh => encode_injective (t := []) hh, fun hh => by rw [hh]; rfl⟩
  rw [ofPath?_eq h, hbytes, extension?_append (mt dot_mem_encode.mp he)]
  simp only [hnil]
  split
  · rfl
  · rw [Option.bind_some, decode?_encode, Option.bind_some]

theorem isSome_ofPath? : (ofPath? name).isSome = true ↔ HasSourceExtension name := by
  constructor
  · intro hsome
    -- The last dot of the name is the first one from its end.
    by_cases hm : '.' ∈ name.toList
    · obtain ⟨before, after, hs, hbefore⟩ :=
        List.eq_append_cons_of_mem (List.mem_reverse.mpr hm)
      have hname : name.toList = after.reverse ++ '.' :: before.reverse := by
        rw [← List.reverse_reverse name.toList, hs]
        simp
      rw [ofPath?_of_toList h hname (mt List.mem_reverse.mp hbefore)] at hsome
      split at hsome
      · cases hsome
      · exact ⟨_, _, hname, ‹_›, isSome_ofExtension?.mp hsome⟩
    · rw [ofPath?_eq h, extension?_of_notMem (mt dot_mem_encode.mp hm)] at hsome
      cases hsome
  · rintro ⟨stem, extension, hs, hne, he⟩
    rw [ofPath?_of_toList h hs (dot_notMem_of_sourceExtensions he), if_neg hne]
    exact isSome_ofExtension?.mpr he

end EntryName

end Language

end ImportLedger
