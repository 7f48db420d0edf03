import Mathlib.Data.List.DropRight
import Mathlib.Data.List.Sort
import SourceSurvey.Proofs.Header.Spans
import SourceSurvey.Proofs.Outline.Headers

/-!
The headers that a search reports. A header stands at a place of a text where no word character comes
directly before it; of those places the reported ones are all that are not inside an earlier reported
header.
-/

namespace SourceSurvey.Header

open Text

/-- A header in a text, with where it starts and how many characters it takes. -/
structure Occurrence where
  start : Nat
  length : Nat
  header : Header

/-- Where an occurrence stops. -/
def Occurrence.stop (o : Occurrence) : Nat := o.start + o.length

/-- The text has the span of the header where the occurrence is, with no word character directly
    before it. -/
def StandsIn (Span : List Char → List Char → Header → Prop) (text : List Char) (o : Occurrence) :
    Prop :=
  ∃ before span rest, text = before ++ (span ++ rest) ∧ before.length = o.start ∧
    span.length = o.length ∧ before.getLast?.any isWordChar = false ∧ Span span rest o.header

/-- Occurrences in order: exactly those that do not begin inside an earlier one of the list. -/
structure Reports (Span : List Char → List Char → Header → Prop) (text : List Char)
    (found : List Occurrence) : Prop where
  ascending : found.Pairwise fun o p => o.start < p.start
  mem_iff : ∀ o, o ∈ found ↔
    StandsIn Span text o ∧ ∀ p ∈ found, p.start < o.start → p.stop ≤ o.start

/-- A text determines which of its headers are reported. -/
theorem Reports.unique {Span : List Char → List Char → Header → Prop} {text : List Char}
    {found other : List Occurrence} (h : Reports Span text found)
    (hother : Reports Span text other) : other = found := by
  -- Whether an occurrence is reported depends on those that start before it.
  have hmem : ∀ n o, o.start = n → (o ∈ other ↔ o ∈ found) := by
    intro n
    induction n using Nat.strong_induction_on with
    | _ n ih =>
      rintro o rfl
      rw [h.mem_iff, hother.mem_iff]
      refine and_congr_right fun _ => forall_congr' fun p => ?_
      constructor
      · intro hp hfound hlt
        exact hp ((ih p.start hlt p rfl).mpr hfound) hlt
      · intro hp hfound hlt
        exact hp ((ih p.start hlt p rfl).mp hfound) hlt
  have : Std.Irrefl fun o p : Occurrence => o.start < p.start := ⟨fun o => Nat.lt_irrefl o.start⟩
  have : Std.Asymm fun o p : Occurrence => o.start < p.start := ⟨fun _ _ => Nat.lt_asymm⟩
  have : Std.Antisymm fun o p : Occurrence => o.start < p.start :=
    ⟨fun _ _ hlt hgt => absurd hgt (Nat.lt_asymm hlt)⟩
  exact hother.ascending.eq_of_mem_iff h.ascending fun o => hmem o.start o rfl

/-! ### The search -/

section Search

variable {Span : List Char → List Char → Header → Prop} {done text : List Char}
  {found : List Occurrence}

/-- Occurrences in order, as they are reported when no part of some text is searched but what comes
    behind it. -/
structure ReportsBehind (Span : List Char → List Char → Header → Prop) (done text : List Char)
    (found : List Occurrence) : Prop where
  ascending : found.Pairwise fun o p => o.start < p.start
  mem_iff : ∀ o, o ∈ found ↔ done.length ≤ o.start ∧ StandsIn Span (done ++ text) o ∧
    ∀ p ∈ found, p.start < o.start → p.stop ≤ o.start

theorem ReportsBehind.le_start (h : ReportsBehind Span done text found) {o : Occurrence}
    (ho : o ∈ found) : done.length ≤ o.start :=
  ((h.mem_iff o).mp ho).1

theorem ReportsBehind.reports (h : ReportsBehind Span [] text found) : Reports Span text found :=
  ⟨h.ascending, fun o => (h.mem_iff o).trans (and_iff_right (Nat.zero_le _))⟩

/-- Where nothing stands, the search goes on with the next character. -/
theorem ReportsBehind.skip {c : Char} {rest : List Char}
    (hnone : ∀ o, o.start = done.length → ¬ StandsIn Span (done ++ c :: rest) o)
    (h : ReportsBehind Span (done ++ [c]) rest found) :
    ReportsBehind Span done (c :: rest) found := by
  refine ⟨h.ascending, fun o => ?_⟩
  rw [h.mem_iff o, List.append_assoc, List.singleton_append]
  refine and_congr_left fun ho => ?_
  have hne : o.start ≠ done.length := fun hstart => hnone o hstart ho.1
  rw [List.length_append, List.length_singleton]
  omega

/-- Where an occurrence stands, the search goes on behind it. -/
theorem ReportsBehind.cons {span rest : List Char} {o : Occurrence} (hstart : o.start = done.length)
    (hlength : o.length = span.length) (ho : StandsIn Span (done ++ (span ++ rest)) o)
    (honly : ∀ p, p.start = done.length → StandsIn Span (done ++ (span ++ rest)) p → p = o)
    (hne : span ≠ []) (h : ReportsBehind Span (done ++ span) rest found) :
    ReportsBehind Span done (span ++ rest) (o :: found) := by
  have hstop : o.stop = (done ++ span).length := by
    rw [Occurrence.stop, hstart, hlength, List.length_append]
  have hlt : o.start < o.stop := by
    have := List.length_pos_iff.mpr hne
    rw [Occurrence.stop, hlength]
    omega
  have hmem := h.mem_iff
  rw [List.append_assoc] at hmem
  refine ⟨List.pairwise_cons.mpr ⟨fun p hp => ?_, h.ascending⟩, fun p => ?_⟩
  · exact hlt.trans_le (hstop ▸ h.le_start hp)
  rw [List.mem_cons, List.forall_mem_cons]
  constructor
  · rintro (rfl | hp)
    · refine ⟨hstart.ge, ho, fun hself => absurd hself (Nat.lt_irrefl _), fun q hq hearlier => ?_⟩
      have := h.le_start hq
      omega
    · obtain ⟨hle, hstands, hbefore⟩ := (hmem p).mp hp
      exact ⟨by omega, hstands, fun _ => hstop ▸ hle, hbefore⟩
  · rintro ⟨hle, hstands, hfirst, hbefore⟩
    obtain heq | hgt := hle.eq_or_lt
    · exact .inl (honly p heq.symm hstands)
    · exact .inr ((hmem p).mpr ⟨hstop ▸ hfirst (hstart ▸ hgt), hstands, hbefore⟩)

variable {header? : List Char → Option (Header × Nat)}

/-- What stands at the beginning of a text that comes behind another is what is found there. -/
theorem standsIn_append_iff (h : Recognises header? Span) {o : Occurrence}
    (hstart : o.start = done.length) :
    StandsIn Span (done ++ text) o ↔
      done.getLast?.any isWordChar = false ∧ header? text = some (o.header, o.length) := by
  rw [h text o.header o.length]
  constructor
  · rintro ⟨before, span, rest, htext, hbefore, hlength, hlast, hspan⟩
    obtain ⟨rfl, rfl⟩ := List.append_inj htext (by rw [hbefore, hstart])
    exact ⟨hlast, span, rest, rfl, hlength, hspan⟩
  · rintro ⟨hlast, span, rest, rfl, hlength, hspan⟩
    exact ⟨done, span, rest, rfl, hstart.symm, hlength, hlast, hspan⟩

theorem eq_of_standsIn (h : Recognises header? Span) {o p : Occurrence}
    (hstart : o.start = done.length) (ho : StandsIn Span (done ++ text) o)
    (hp : p.start = done.length) (hother : StandsIn Span (done ++ text) p) : p = o := by
  have hheader := ((standsIn_append_iff h hstart).mp ho).2
  rw [((standsIn_append_iff h hp).mp hother).2] at hheader
  cases o
  cases p
  simp_all

/-- What a search behind some text finds is what is reported behind it. -/
theorem exists_reportsBehind (h : Recognises header? Span)
    (hne : ∀ {span rest header}, Span span rest header → span ≠ []) (done text : List Char) :
    ∃ found, ReportsBehind Span done text found ∧
      all header? (done.getLast?.any isWordChar) text = found.map (·.header) := by
  induction hn : text.length using Nat.strong_induction_on generalizing done text with
  | _ n ih =>
    subst hn
    by_cases hhere : ∃ o, o.start = done.length ∧ StandsIn Span (done ++ text) o
    · obtain ⟨o, hstart, ho⟩ := hhere
      obtain ⟨hlast, hheader⟩ := (standsIn_append_iff h hstart).mp ho
      obtain ⟨span, rest, rfl, hlength, hspan⟩ := (h _ _ _).mp hheader
      obtain ⟨c, taken, rfl⟩ := List.exists_cons_of_ne_nil (hne hspan)
      have hshorter : rest.length < ((c :: taken) ++ rest).length := by
        simp only [List.length_append, List.length_cons]
        omega
      obtain ⟨found, hfound, hall⟩ := ih rest.length hshorter (done ++ c :: taken) rest rfl
      refine ⟨o :: found, hfound.cons hstart hlength.symm ho
        (fun p hp => eq_of_standsIn h hstart ho hp) (hne hspan), ?_⟩
      rw [hlast, all_append (hlength ▸ hheader), List.map_cons, ← hall,
        List.getLast?_append_of_ne_nil _ (List.cons_ne_nil c taken)]
    · have hnone : ∀ o, o.start = done.length → ¬ StandsIn Span (done ++ text) o :=
        fun o hstart ho => hhere ⟨o, hstart, ho⟩
      cases text with
      | nil =>
        refine ⟨[], ⟨.nil, fun o => iff_of_false List.not_mem_nil ?_⟩, all_nil _⟩
        rintro ⟨hle, ⟨before, span, rest, htext, hbefore, -, -, hspan⟩, -⟩
        have hlength := congrArg List.length htext
        have hpos := List.length_pos_iff.mpr (hne hspan)
        simp only [List.length_append, List.length_nil] at hlength
        omega
      | cons c rest =>
        obtain ⟨found, hfound, hall⟩ := ih rest.length (by simp) (done ++ [c]) rest rfl
        refine ⟨found, hfound.skip hnone, ?_⟩
        have hskip : done.getLast?.any isWordChar = true ∨ header? (c :: rest) = none := by
          refine Classical.or_iff_not_imp_left.mpr fun hlast => ?_
          rw [Option.eq_none_iff_forall_ne_some]
          rintro ⟨header, n⟩ hheader
          exact hnone ⟨done.length, n, header⟩ rfl
            ((standsIn_append_iff h rfl).mpr ⟨Bool.eq_false_iff.mpr hlast, hheader⟩)
        rw [all_cons hskip, ← hall, List.getLast?_concat, Option.any_some]

theorem exists_reports (h : Recognises header? Span)
    (hne : ∀ {span rest header}, Span span rest header → span ≠ []) (text : List Char) :
    ∃ found, Reports Span text found ∧ all header? false text = found.map (·.header) := by
  obtain ⟨found, hfound, hall⟩ := exists_reportsBehind h hne [] text
  exact ⟨found, hfound.reports, hall⟩

end Search

/-! ### Parameters -/

/-- A field of a list of parameters and what it is without the blanks at either end. -/
structure Trims (field parameter : List Char) : Prop where
  exists_blanks : ∃ before after, field = before ++ parameter ++ after ∧
    ∀ c ∈ before ++ after, isBlank c = true
  head : parameter.head?.any isBlank = false
  last : parameter.getLast?.any isBlank = false

/-- The parameters that a header has, by what stands in its parentheses. -/
inductive Lists : Option (List Char) → List (List Char) → Prop
  | none : Lists none []
  | blank {inside : List Char} (hblank : ∀ c ∈ inside, isBlank c = true) : Lists (some inside) []
  | fields {inside : List Char} {fields parameters : List (List Char)}
    (hsome : ∃ c ∈ inside, isBlank c = false) (hinside : inside = join [','] fields)
    (hfields : ∀ field ∈ fields, ',' ∉ field) (htrims : List.Forall₂ Trims fields parameters) :
    Lists (some inside) parameters

theorem trims_trim (field : List Char) : Trims field (trim field) := by
  let inner := trimStart field
  have htrim : trim field = inner.rdropWhile isBlank := rfl
  have hinner : inner = trim field ++ inner.rtakeWhile isBlank :=
    (List.rdropWhile_append_rtakeWhile ..).symm
  refine ⟨⟨field.takeWhile isBlank, inner.rtakeWhile isBlank, ?_, ?_⟩, ?_, ?_⟩
  · rw [List.append_assoc, ← hinner]
    exact List.takeWhile_append_dropWhile.symm
  · refine List.forall_mem_append.mpr ⟨fun c hc => ?_, fun c hc => ?_⟩
    · exact List.mem_takeWhile_imp hc
    · exact List.mem_rtakeWhile_imp hc
  · have hhead : inner.head?.any isBlank = false := head?_dropWhile_any isBlank field
    cases hkept : trim field with
    | nil => rfl
    | cons c kept =>
      rw [hinner, hkept] at hhead
      exact hhead
  · rw [htrim, List.rdropWhile, List.getLast?_reverse]
    exact head?_dropWhile_any isBlank inner.reverse

theorem trim_eq_nil_iff {text : List Char} : trim text = [] ↔ ∀ c ∈ text, isBlank c = true := by
  constructor
  · intro h
    obtain ⟨before, after, htext, hblank⟩ := (trims_trim text).exists_blanks
    rw [htext, h, List.append_nil]
    exact hblank
  · intro h
    rw [trim, trimStart, List.dropWhile_eq_nil_iff.mpr h]
    rfl

theorem lists_parameterList (header : Header) : Lists header.parameters header.parameterList := by
  rw [parameterList]
  split
  · next h =>
    rw [h]
    exact .none
  · next inside h =>
    rw [h]
    split
    · next hnil => exact .blank (trim_eq_nil_iff.mp (List.isEmpty_iff.mp hnil))
    · next hsome =>
      rw [List.isEmpty_iff, trim_eq_nil_iff] at hsome
      refine .fields (by simpa using hsome) (join_split ',' inside).symm
        (fun field => not_mem_of_mem_split) ?_
      exact List.forall₂_map_right_iff.mpr (List.forall₂_same.mpr fun field _ => trims_trim field)

/-! ### Records -/

/-- The record of a function that a header stands for. -/
structure Names (o : Occurrence) (f : FunctionRecord) : Prop where
  name : f.name = String.ofList o.header.name
  parameters : Lists o.header.parameters (f.parameters.map String.toList)

/-- The functions and the classes found in a text are exactly those whose headers are reported, each
    with its name, and functions with their parameters. A text has one such report of each. -/
theorem record_reports (file path text : String) :
    let found := Header.record file path text
    (∃ headers, Reports FunctionSpan text.toList headers ∧
      (∀ other, Reports FunctionSpan text.toList other → other = headers) ∧
        List.Forall₂ Names headers found.functions) ∧
    (∃ headers, Reports ClassSpan text.toList headers ∧
      (∀ other, Reports ClassSpan text.toList other → other = headers) ∧
        found.classes.map (·.name) = headers.map fun o => String.ofList o.header.name) := by
  constructor
  · obtain ⟨headers, hheaders, hall⟩ :=
      exists_reports recognises_function? FunctionSpan.ne_nil text.toList
    refine ⟨headers, hheaders, fun other => hheaders.unique, ?_⟩
    simp only [Header.record, functions, hall, List.map_map]
    refine List.forall₂_map_right_iff.mpr (List.forall₂_same.mpr fun o _ => ⟨rfl, ?_⟩)
    have hmap : (o.header.parameterList.map String.ofList).map String.toList =
        o.header.parameterList := by simp
    exact hmap ▸ lists_parameterList o.header
  · obtain ⟨headers, hheaders, hall⟩ :=
      exists_reports recognises_class? ClassSpan.ne_nil text.toList
    refine ⟨headers, hheaders, fun other => hheaders.unique, ?_⟩
    simp only [Header.record, classes, hall, List.map_map]
    rfl

/-- A keyword may be a name. Within the header that it names no other begins. -/
example : (functions "def fn f(a, b) func g (c , d)".toList).map (fun f => (f.name, f.parameters)) =
    [("fn", []), ("g", ["c", "d"])] := by
  cbv

end SourceSurvey.Header
