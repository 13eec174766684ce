import Brdns.Lib.Ascii

/-! Lines and words of a text: they come apart where a separator stands and nowhere else. -/

namespace Lib.Text

/-! ### Trimming -/

/-- Neither end is white space. -/
theorem trim_eq_self {s : Text} (hfirst : ∀ c ∈ s.head?, isWhitespace c = false)
    (hlast : ∀ c ∈ s.getLast?, isWhitespace c = false) : trim s = s := by
  have hstart : s.dropWhile isWhitespace = s := by
    cases s with
    | nil => rfl
    | cons c s => exact List.dropWhile_cons_of_neg (by simp [hfirst c rfl])
  rw [trim, hstart, List.rdropWhile_eq_self_iff]
  intro hne
  simp [hlast _ (List.getLast?_eq_some_getLast hne)]

theorem trim_of_forall {s : Text} (h : ∀ c ∈ s, isWhitespace c = false) : trim s = s :=
  trim_eq_self (fun c hc => h c (List.mem_of_mem_head? hc))
    fun c hc => h c (List.mem_of_mem_getLast? hc)

theorem trim_append_left {p : Text} (hp : ∀ c ∈ p, isWhitespace c = true) (s : Text) :
    trim (p ++ s) = trim s := by
  rw [trim, List.dropWhile_append_of_pos hp, trim]

theorem trim_append_right (s : Text) {q : Text} (hq : ∀ c ∈ q, isWhitespace c = true) :
    trim (s ++ q) = trim s := by
  have hdrop : ∀ t : Text, (t ++ q).rdropWhile isWhitespace = t.rdropWhile isWhitespace := by
    intro t
    have hq' : ∀ c ∈ q.reverse, isWhitespace c = true := fun c hc => hq c (List.mem_reverse.mp hc)
    rw [List.rdropWhile, List.reverse_append, List.dropWhile_append_of_pos hq', List.rdropWhile]
  rw [trim, List.dropWhile_append]
  split_ifs with hs
  · have hnil : s.dropWhile isWhitespace = [] := List.isEmpty_iff.mp hs
    rw [trim, hnil, List.dropWhile_eq_nil_iff.mpr hq]
  · exact hdrop _

/-- Trimming takes white space off at both ends. -/
theorem trim_spec (s : Text) : ∃ p q : Text, s = p ++ trim s ++ q ∧
    (∀ c ∈ p, isWhitespace c = true) ∧ ∀ c ∈ q, isWhitespace c = true := by
  refine ⟨s.takeWhile isWhitespace, (s.dropWhile isWhitespace).rtakeWhile isWhitespace, ?_, ?_, ?_⟩
  · rw [trim, List.append_assoc, List.rdropWhile_append_rtakeWhile,
      List.takeWhile_append_dropWhile]
  · exact fun c hc => List.mem_takeWhile_imp hc
  · exact fun c hc => List.mem_rtakeWhile_imp hc

theorem trim_trim (s : Text) : trim (trim s) = trim s := by
  obtain ⟨p, q, hs, hp, hq⟩ := trim_spec s
  conv_rhs => rw [hs, trim_append_right _ hq, trim_append_left hp]

/-- A trimmed text starts at the first character that is no white space. -/
theorem head?_trim (s : Text) : (trim s).head? = s.find? fun c => !isWhitespace c := by
  obtain ⟨p, q, hs, hp, hq⟩ := trim_spec s
  have hnone : ∀ t : Text, (∀ c ∈ t, isWhitespace c = true) →
      t.find? (fun c => !isWhitespace c) = none := by
    intro t ht
    rw [List.find?_eq_none]
    simpa using ht
  rcases ht : trim s with _ | ⟨c, t⟩
  · rw [ht, List.append_nil] at hs
    rw [hs, List.find?_append, hnone p hp, hnone q hq]
    rfl
  · have hc : isWhitespace c = false := by
      have hprefix : trim s <+: s.dropWhile isWhitespace := List.rdropWhile_prefix _ _
      obtain ⟨r, hr⟩ := hprefix
      have hhead := List.head?_dropWhile_not isWhitespace s
      rw [← hr, ht] at hhead
      exact hhead
    rw [hs, ht, List.append_assoc, List.find?_append, hnone p hp, Option.none_or]
    simp [hc]

theorem trim_stripCr (s : Text) : trim (stripCr s) = trim s := by
  rw [stripCr]
  split_ifs with h
  · obtain ⟨t, rfl⟩ := List.getLast?_eq_some_iff.mp h
    rw [List.dropLast_concat, trim_append_right]
    simp [isWhitespace]
  · rfl

/-! ### Words -/

/-- Words come apart at white space. -/
theorem splitWhitespace_append {c : Char} (hc : isWhitespace c = true) (s t : Text) :
    splitWhitespace (s ++ c :: t) = splitWhitespace s ++ splitWhitespace t := by
  rw [splitWhitespace, List.splitOnP_append_cons s t hc, List.filter_append]
  rfl

theorem splitWhitespace_word {w : Text} (hne : w ≠ []) (h : ∀ c ∈ w, isWhitespace c = false) :
    splitWhitespace w = [w] := by
  rw [splitWhitespace, List.splitOnP_eq_singleton h]
  simp [hne]

theorem splitWhitespace_append_left {p : Text} (hp : ∀ c ∈ p, isWhitespace c = true) (s : Text) :
    splitWhitespace (p ++ s) = splitWhitespace s := by
  induction p with
  | nil => rfl
  | cons c p ih =>
    obtain ⟨hc, hp⟩ := List.forall_mem_cons.mp hp
    have happ : splitWhitespace ([] ++ c :: (p ++ s)) =
        splitWhitespace [] ++ splitWhitespace (p ++ s) := splitWhitespace_append hc [] (p ++ s)
    rw [List.nil_append, ih hp] at happ
    exact happ

theorem splitWhitespace_of_forall {s : Text} (h : ∀ c ∈ s, isWhitespace c = true) :
    splitWhitespace s = [] := by
  have happ := splitWhitespace_append_left h []
  rw [List.append_nil] at happ
  rw [happ]
  rfl

/-- Only white space has no word. -/
theorem splitWhitespace_eq_nil {s : Text} :
    splitWhitespace s = [] ↔ ∀ c ∈ s, isWhitespace c = true := by
  refine ⟨fun h => ?_, splitWhitespace_of_forall⟩
  induction s with
  | nil => exact fun c hc => absurd hc List.not_mem_nil
  | cons c s ih =>
    rw [splitWhitespace, List.splitOnP_cons_eq_if_modifyHead] at h
    split_ifs at h with hc
    · exact List.forall_mem_cons.mpr ⟨hc, ih h⟩
    · obtain ⟨word, words, hwords⟩ :=
        List.exists_cons_of_ne_nil (List.splitOnP_ne_nil isWhitespace s)
      rw [hwords] at h
      cases h

theorem splitWhitespace_append_right (s : Text) {q : Text} (hq : ∀ c ∈ q, isWhitespace c = true) :
    splitWhitespace (s ++ q) = splitWhitespace s := by
  rcases q with _ | ⟨c, q⟩
  · rw [List.append_nil]
  · obtain ⟨hc, hq⟩ := List.forall_mem_cons.mp hq
    rw [splitWhitespace_append hc, splitWhitespace_of_forall hq, List.append_nil]

theorem splitWhitespace_trim (s : Text) : splitWhitespace (trim s) = splitWhitespace s := by
  obtain ⟨p, q, hs, hp, hq⟩ := trim_spec s
  conv_rhs => rw [hs, splitWhitespace_append_right _ hq, splitWhitespace_append_left hp]

/-! ### Lines -/

theorem lines_append (s t : Text) :
    lines (s ++ '\n' :: t) = (split '\n' s).map stripCr ++ lines t := by
  have hne : List.splitOn '\n' t ≠ [] := List.splitOn_ne_nil '\n' t
  have hparts : List.splitOn '\n' (s ++ '\n' :: t) = List.splitOn '\n' s ++ List.splitOn '\n' t :=
    List.splitOn_append_cons_self s t
  simp only [lines, hparts]
  rw [List.dropLast_append_of_ne_nil hne, List.getLast?_append_of_ne_nil _ hne, List.map_append,
    List.append_assoc]
  rfl

/-- The first part reaches to the first separator. -/
theorem head?_split (sep : Char) (s : Text) :
    (split sep s).head? = some (s.takeWhile (· != sep)) := by
  change (s.splitOnP (· == sep)).head? = _
  induction s with
  | nil => rfl
  | cons c s ih =>
    rw [List.splitOnP_cons_eq_if_modifyHead]
    by_cases hc : c = sep
    · simp [hc]
    · rw [if_neg (by simpa using hc), List.takeWhile_cons_of_pos (by simpa using hc),
        List.head?_modifyHead, ih]
      rfl

theorem split_of_not_mem {sep : Char} {s : Text} (h : sep ∉ s) : split sep s = [s] := by
  have hjoin := split_join (List.cons_ne_nil s []) (List.forall_mem_singleton.mpr h)
  simpa [join] using hjoin

/-- To a reader that ignores carriage returns at the end and empty lines, the lines are what stands
between line feeds. -/
theorem flatMap_lines {α : Type*} {f : Text → List α} (hcr : ∀ line, f (stripCr line) = f line)
    (hnil : f [] = []) (s : Text) : (lines s).flatMap f = (split '\n' s).flatMap f := by
  obtain ⟨parts, last, hparts⟩ :=
    (List.eq_nil_or_concat' _).resolve_left (List.splitOn_ne_nil '\n' s)
  have hlast : ([last].filter (· ≠ [])).flatMap f = f last := by
    by_cases h : last = [] <;> simp [h, hnil]
  have hinit : (parts.map stripCr).flatMap f = parts.flatMap f := by
    rw [List.flatMap_map]
    exact List.flatMap_congr fun line _ => hcr line
  simp only [lines, split, hparts, List.dropLast_concat, List.getLast?_concat, Option.toList_some,
    List.flatMap_append, hlast, hinit, List.flatMap_singleton]

/-- Text without a line feed is one line, or none. -/
theorem lines_of_not_mem {s : Text} (h : '\n' ∉ s) : lines s = if s = [] then [] else [s] := by
  have hparts : List.splitOn '\n' s = [s] := split_of_not_mem h
  simp only [lines, hparts]
  split_ifs with hs <;> simp [hs]

/-- What can stand on a line: no line feed, and no carriage return at its end. -/
structure IsLine (s : Text) : Prop where
  ne_nil : s ≠ []
  feed : '\n' ∉ s
  carriage : s.getLast? ≠ some '\r'

theorem lines_line_append {s : Text} (h : IsLine s) (t : Text) :
    lines (s ++ '\n' :: t) = s :: lines t := by
  rw [lines_append, split_of_not_mem h.feed, List.map_singleton, stripCr, if_neg h.carriage]
  rfl

/-- Lines written one after the other, each ended by a line feed. -/
theorem lines_terminated {parts : List Text} (h : ∀ p ∈ parts, IsLine p) :
    lines (parts.flatMap (· ++ ['\n'])) = parts := by
  induction parts with
  | nil => rfl
  | cons p parts ih =>
    obtain ⟨hp, hparts⟩ := List.forall_mem_cons.mp h
    rw [List.flatMap_cons, List.append_assoc, List.singleton_append, lines_line_append hp,
      ih hparts]

/-- Lines written one after the other, with line feeds between them. -/
theorem lines_join {parts : List Text} (h : ∀ p ∈ parts, IsLine p) :
    lines (join '\n' parts) = parts := by
  induction parts with
  | nil => rfl
  | cons p parts ih =>
    obtain ⟨hp, hparts⟩ := List.forall_mem_cons.mp h
    rcases eq_or_ne parts [] with rfl | hne
    · rw [join, List.intercalate_singleton, lines_of_not_mem hp.feed, if_neg hp.ne_nil]
    · have hsplit : join '\n' (p :: parts) = join '\n' [p] ++ '\n' :: join '\n' parts :=
        join_append (List.cons_ne_nil p []) hne
      have hone : join '\n' [p] = p := List.intercalate_singleton
      rw [hsplit, hone, lines_line_append hp, ih hparts]

end Lib.Text
