import SourceSurvey.Proofs.Blocks.Stack

/-!
The check of indentation against the plain offside rule. One measure gives an algorithm of its own: a
stack of columns, on which a deeper line is pushed and to which every other line returns. The check
with two measures lets a source pass where the two algorithms do and nest its lines alike.
-/

namespace SourceSurvey.Syntax

/-- The column at which a line starts behind a text of spaces and tabs, where `tab` tells what a tab
    makes of a column. Any other character starts anew. -/
def columnBehind (tab : Nat → Nat) (text : List Char) : Nat :=
  text.foldl (fun column c => if c = ' ' then column + 1 else if c = '\t' then tab column else 0) 0

/-- A tab leads to the next multiple of eight. -/
def tabToStop (column : Nat) : Nat := (column / 8 + 1) * 8

/-- A tab counts as one column. -/
def tabAsOne (column : Nat) : Nat := column + 1

theorem foldl_after_eq (text : List Char) (i : Indent) :
    text.foldl Indent.after i =
      ⟨text.foldl (fun column c => if c = ' ' then column + 1
          else if c = '\t' then tabToStop column else 0) i.stops,
        text.foldl (fun column c => if c = ' ' then column + 1
          else if c = '\t' then tabAsOne column else 0) i.flat⟩ := by
  induction text generalizing i with
  | nil => rfl
  | cons c rest ih =>
    rw [List.foldl_cons, ih, Indent.after]
    simp only [List.foldl_cons]
    split_ifs <;> rfl

theorem ofText_eq_columns (text : List Char) :
    Indent.ofText text = ⟨columnBehind tabToStop text, columnBehind tabAsOne text⟩ :=
  foldl_after_eq text ⟨0, 0⟩

/-- The columns of the open blocks at a line that starts at some column, innermost first: a line that
    starts further to the right opens a block, any other has to start where some open block does. -/
def offside (blocks : List Nat) (column : Nat) : Option (List Nat) :=
  if blocks.headD 0 < column then some (column :: blocks)
  else if column ∈ blocks then some (blocks.dropWhile fun block => column < block)
  else none

/-- How many blocks are open at each line, or nothing where a line is not let pass. -/
def offsideDepths (blocks : List Nat) : List Nat → Option (List Nat)
  | [] => some []
  | column :: rest => do
    let blocks ← offside blocks column
    let depths ← offsideDepths blocks rest
    return blocks.length :: depths

section Offside

variable {blocks next : List Nat} {column : Nat}

/-- Where the blocks lie further and further to the right, a line opens one or returns to one. -/
theorem offside_eq_some_iff (h : blocks.Pairwise (· > ·)) :
    offside blocks column = some next ↔
      (blocks.headD 0 < column ∧ next = column :: blocks) ∨
        ∃ inner outer, blocks = inner ++ column :: outer ∧ next = column :: outer := by
  have hreturn : ∀ inner outer, blocks = inner ++ column :: outer →
      ¬ blocks.headD 0 < column ∧ blocks.dropWhile (fun block => column < block) = column :: outer := by
    rintro inner outer rfl
    obtain ⟨-, -, hbefore⟩ := List.pairwise_append.mp h
    constructor
    · cases inner with
      | nil => exact Nat.lt_irrefl column
      | cons top inner =>
        exact Nat.not_lt_of_gt (hbefore top List.mem_cons_self column List.mem_cons_self)
    · rw [List.dropWhile_append_of_pos fun block hblock =>
          decide_eq_true (hbefore block hblock column List.mem_cons_self),
        List.dropWhile_cons_of_neg (by simp)]
  constructor
  · intro hoffside
    unfold offside at hoffside
    split_ifs at hoffside with hdeeper hmem
    · exact .inl ⟨hdeeper, (Option.some.inj hoffside).symm⟩
    · obtain ⟨inner, outer, hblocks⟩ := List.append_of_mem hmem
      rw [(hreturn inner outer hblocks).2] at hoffside
      exact .inr ⟨inner, outer, hblocks, (Option.some.inj hoffside).symm⟩
  · rintro (⟨hdeeper, rfl⟩ | ⟨inner, outer, hblocks, rfl⟩)
    · rw [offside, if_pos hdeeper]
    · obtain ⟨hshallow, hclosed⟩ := hreturn inner outer hblocks
      rw [offside, if_neg hshallow, if_pos (by simp [hblocks]), hclosed]

theorem offsideDepths_cons_eq_some_iff {rest depths : List Nat} :
    offsideDepths blocks (column :: rest) = some depths ↔
      ∃ next inside, offside blocks column = some next ∧ offsideDepths next rest = some inside ∧
        depths = next.length :: inside := by
  simp [offsideDepths, Option.bind_eq_some_iff, eq_comm (a := depths)]

theorem length_of_offsideDepths {columns depths : List Nat}
    (h : offsideDepths blocks columns = some depths) : depths.length = columns.length := by
  induction columns generalizing blocks depths with
  | nil => exact Option.some.inj h ▸ rfl
  | cons column rest ih =>
    obtain ⟨next, inside, -, hrest, rfl⟩ := offsideDepths_cons_eq_some_iff.mp h
    rw [List.length_cons, List.length_cons, ih hrest]

end Offside

namespace IndentStack

/-- Open blocks are indented further and further in both measures, from a line that is not indented
    on. -/
structure Nested (stack : IndentStack) : Prop where
  descending : stack.Pairwise fun inner outer => outer.stops < inner.stops ∧ outer.flat < inner.flat
  grounded : stack.getLast? = some ⟨0, 0⟩

theorem nested_base : base.Nested := ⟨List.pairwise_singleton _ _, rfl⟩

variable {stack next final : IndentStack} {line : Indent}

theorem Nested.ordered (h : stack.Nested) : stack.Ordered :=
  ⟨h.descending.imp And.left, ⟨0, 0⟩, List.mem_of_getLast? h.grounded, rfl⟩

theorem Nested.pairwise_stops (h : stack.Nested) : (stack.map Indent.stops).Pairwise (· > ·) :=
  List.pairwise_map.mpr (h.descending.imp And.left)

theorem Nested.pairwise_flat (h : stack.Nested) : (stack.map Indent.flat).Pairwise (· > ·) :=
  List.pairwise_map.mpr (h.descending.imp And.right)

theorem eq_of_measures_eq {i j : Indent} (hstops : i.stops = j.stops) (hflat : i.flat = j.flat) :
    i = j := by
  cases i
  cases j
  simp_all

theorem Nested.top_mem (h : stack.Nested) : stack.top ∈ stack := by
  cases stack with
  | nil => cases h.grounded
  | cons top rest => exact List.mem_cons_self

theorem Nested.le_top (h : stack.Nested) {i : Indent} (hi : i ∈ stack) :
    i.stops ≤ stack.top.stops ∧ i.flat ≤ stack.top.flat := by
  cases stack with
  | nil => cases hi
  | cons top rest =>
    obtain rfl | hrest := List.mem_cons.mp hi
    · exact ⟨Nat.le_refl _, Nat.le_refl _⟩
    · have hless := List.rel_of_pairwise_cons h.descending hrest
      exact ⟨Nat.le_of_lt hless.1, Nat.le_of_lt hless.2⟩

theorem accept_deeper (hstops : stack.top.stops < line.stops) (hflat : stack.top.flat < line.flat) :
    stack.accept line = .ok (line :: stack) := by
  unfold accept
  simp only [if_neg (Nat.ne_of_gt hstops), if_pos hstops, if_pos hflat]

theorem accept_shallower {outer : IndentStack} (hless : line.stops < stack.top.stops)
    (hunwind : stack.unwind line.stops = line :: outer) : stack.accept line = .ok (line :: outer) := by
  unfold accept
  simp only [if_neg (Nat.ne_of_lt hless), if_neg (Nat.not_lt_of_gt hless), hunwind]
  simp [top]

/-- A line returns to any open block by an indentation that is the block's in both measures. -/
theorem Nested.accept_append {inner outer : IndentStack} (h : (inner ++ line :: outer).Nested) :
    accept (inner ++ line :: outer) line = .ok (line :: outer) := by
  obtain ⟨-, -, hinner⟩ := List.pairwise_append.mp h.descending
  cases inner with
  | nil => simp [accept, top]
  | cons deepest inner =>
    refine accept_shallower (hinner deepest List.mem_cons_self line List.mem_cons_self).1 ?_
    rw [unwind_eq_dropWhile ⟨line, by simp, Nat.le_refl _⟩,
      List.dropWhile_append_of_pos fun i hi =>
        decide_eq_true (hinner i hi line List.mem_cons_self).1,
      List.dropWhile_cons_of_neg (by simp)]

/-- A line opens a block that is deeper in both measures, or it returns to the very indentation of an
    open block. -/
theorem Nested.accept_eq_ok_iff (h : stack.Nested) :
    stack.accept line = .ok next ↔
      (stack.top.stops < line.stops ∧ stack.top.flat < line.flat ∧ next = line :: stack) ∨
        ∃ inner outer, stack = inner ++ line :: outer ∧ next = line :: outer := by
  constructor
  · intro haccept
    obtain ⟨hnext, hmem⟩ := h.ordered.accept_eq haccept
    obtain hdeeper | hsame | hless := Nat.lt_trichotomy stack.top.stops line.stops
    · have hflat : stack.top.flat < line.flat := by
        unfold accept at haccept
        simp only [if_neg (Nat.ne_of_gt hdeeper), if_pos hdeeper] at haccept
        split_ifs at haccept with hflat
        exact hflat
      rw [accept_deeper hdeeper hflat] at haccept
      exact .inl ⟨hdeeper, hflat, (Except.ok.inj haccept).symm⟩
    · have hflat : line.flat = stack.top.flat := by
        unfold accept at haccept
        simp only [if_pos hsame.symm] at haccept
        split_ifs at haccept with hflat
        exact hflat
      have hline : line ∈ stack := eq_of_measures_eq hsame.symm hflat ▸ h.top_mem
      obtain ⟨inner, outer, hstack⟩ := List.append_of_mem hline
      exact .inr ⟨inner, outer, hstack, by rw [hnext, h.ordered.filter_eq inner hstack]⟩
    · obtain ⟨inner, outer, hstack⟩ := List.append_of_mem (hmem hless)
      exact .inr ⟨inner, outer, hstack, by rw [hnext, h.ordered.filter_eq inner hstack]⟩
  · rintro (⟨hstops, hflat, rfl⟩ | ⟨inner, outer, hstack, rfl⟩)
    · exact accept_deeper hstops hflat
    · exact hstack ▸ (hstack ▸ h).accept_append

/-- Passing a line leaves the open blocks nested, and the line's own indentation on top. -/
theorem Nested.accept (h : stack.Nested) (haccept : stack.accept line = .ok next) :
    next.Nested ∧ next.head? = some line := by
  obtain ⟨hstops, hflat, rfl⟩ | ⟨inner, outer, rfl, rfl⟩ := h.accept_eq_ok_iff.mp haccept
  · refine ⟨⟨List.pairwise_cons.mpr ⟨fun i hi => ?_, h.descending⟩, ?_⟩, rfl⟩
    · obtain ⟨hile, hiflat⟩ := h.le_top hi
      exact ⟨Nat.lt_of_le_of_lt hile hstops, Nat.lt_of_le_of_lt hiflat hflat⟩
    · rw [List.getLast?_cons, h.grounded]
      rfl
  · refine ⟨⟨(List.pairwise_append.mp h.descending).2.1, ?_⟩, rfl⟩
    rw [← h.grounded, List.getLast?_append, List.getLast?_cons]
    rfl

theorem headD_map_stops (stack : IndentStack) :
    (stack.map Indent.stops).headD 0 = stack.top.stops := by
  cases stack <;> rfl

theorem headD_map_flat (stack : IndentStack) : (stack.map Indent.flat).headD 0 = stack.top.flat := by
  cases stack <;> rfl

/-- The measures taken alone let a line pass that both together let pass, and open and close the same
    blocks. -/
theorem Nested.offside_of_accept (h : stack.Nested) (haccept : stack.accept line = .ok next) :
    offside (stack.map Indent.stops) line.stops = some (next.map Indent.stops) ∧
      offside (stack.map Indent.flat) line.flat = some (next.map Indent.flat) := by
  rw [offside_eq_some_iff h.pairwise_stops, offside_eq_some_iff h.pairwise_flat, headD_map_stops,
    headD_map_flat]
  obtain ⟨hstops, hflat, rfl⟩ | ⟨inner, outer, rfl, rfl⟩ := h.accept_eq_ok_iff.mp haccept
  · exact ⟨.inl ⟨hstops, rfl⟩, .inl ⟨hflat, rfl⟩⟩
  · exact ⟨.inr ⟨inner.map Indent.stops, outer.map Indent.stops, by simp, rfl⟩,
      .inr ⟨inner.map Indent.flat, outer.map Indent.flat, by simp, rfl⟩⟩

/-- A line that each measure lets pass, with as many blocks open behind it in the one as in the other,
    is let pass by both together. -/
theorem Nested.exists_accept {stops flat : List Nat} (h : stack.Nested)
    (hstops : offside (stack.map Indent.stops) line.stops = some stops)
    (hflat : offside (stack.map Indent.flat) line.flat = some flat)
    (hlength : stops.length = flat.length) : ∃ next, stack.accept line = .ok next := by
  rw [offside_eq_some_iff h.pairwise_stops, headD_map_stops] at hstops
  rw [offside_eq_some_iff h.pairwise_flat, headD_map_flat] at hflat
  obtain ⟨hdeeper, rfl⟩ | ⟨inner, outer, hstack, rfl⟩ := hstops <;>
    obtain ⟨hdeeper', rfl⟩ | ⟨inner', outer', hstack', rfl⟩ := hflat
  · exact ⟨_, accept_deeper hdeeper hdeeper'⟩
  · -- one opens a block where the other returns to one
    have := congrArg List.length hstack'
    simp at this hlength
    omega
  · have := congrArg List.length hstack
    simp at this hlength
    omega
  · have hinner : inner.length = inner'.length := by
      have hleft := congrArg List.length hstack
      have hright := congrArg List.length hstack'
      simp at hleft hright hlength
      omega
    -- both return to the block at the same height
    obtain ⟨before, rest, rfl, rfl, hrest⟩ := List.map_eq_append_iff.mp hstack
    obtain ⟨i, after, rfl, hi, rfl⟩ := List.map_eq_cons_iff.mp hrest
    rw [List.map_append, List.map_cons] at hstack'
    obtain ⟨-, hrest'⟩ := List.append_inj hstack' (by simpa using hinner)
    obtain rfl := eq_of_measures_eq hi (List.cons.inj hrest').1
    exact ⟨_, h.accept_append⟩

/-- Along a whole run, the depths that each measure finds alone are those of both together. -/
theorem Nested.depths_of_run {lines : List Indent} (h : stack.Nested)
    (hrun : lines.foldlM IndentStack.accept stack = .ok final) :
    ∃ depths, offsideDepths (stack.map Indent.stops) (lines.map Indent.stops) = some depths ∧
      offsideDepths (stack.map Indent.flat) (lines.map Indent.flat) = some depths ∧
      (stack.length :: depths).getLast? = some final.length := by
  induction lines generalizing stack with
  | nil =>
    cases hrun
    exact ⟨[], rfl, rfl, rfl⟩
  | cons line rest ih =>
    obtain ⟨next, haccept, hrun⟩ := exists_of_run_cons hrun
    obtain ⟨hstops, hflat⟩ := h.offside_of_accept haccept
    obtain ⟨depths, hrest, hrest', hlast⟩ := ih (h.accept haccept).1 hrun
    refine ⟨next.length :: depths, ?_, ?_, by rw [List.getLast?_cons_cons, hlast]⟩
    · exact offsideDepths_cons_eq_some_iff.mpr ⟨_, depths, hstops, hrest, by rw [List.length_map]⟩
    · exact offsideDepths_cons_eq_some_iff.mpr ⟨_, depths, hflat, hrest', by rw [List.length_map]⟩

/-- Where each measure alone lets all lines pass at the same depths, both together do. -/
theorem Nested.exists_run {lines : List Indent} {depths : List Nat} (h : stack.Nested)
    (hstops : offsideDepths (stack.map Indent.stops) (lines.map Indent.stops) = some depths)
    (hflat : offsideDepths (stack.map Indent.flat) (lines.map Indent.flat) = some depths) :
    ∃ final, lines.foldlM IndentStack.accept stack = .ok final := by
  induction lines generalizing stack depths with
  | nil => exact ⟨stack, rfl⟩
  | cons line rest ih =>
    obtain ⟨stops, inside, hstop, hstopsRest, rfl⟩ := offsideDepths_cons_eq_some_iff.mp hstops
    obtain ⟨flat, inside', hone, hflatRest, heq⟩ := offsideDepths_cons_eq_some_iff.mp hflat
    obtain ⟨hlength, rfl⟩ := List.cons.inj heq
    obtain ⟨next, haccept⟩ := h.exists_accept hstop hone hlength
    obtain ⟨hstop', hone'⟩ := h.offside_of_accept haccept
    obtain rfl := Option.some.inj (hstop.symm.trans hstop')
    obtain rfl := Option.some.inj (hone.symm.trans hone')
    obtain ⟨final, hrun⟩ := ih (h.accept haccept).1 hstopsRest hflatRest
    exact ⟨final, by rw [List.foldlM_cons, haccept]; exact hrun⟩

theorem Nested.run {lines : List Indent} (h : stack.Nested)
    (hrun : lines.foldlM IndentStack.accept stack = .ok final) : final.Nested := by
  induction lines generalizing stack with
  | nil => exact Except.ok.inj hrun ▸ h
  | cons line rest ih =>
    obtain ⟨next, haccept, hrun⟩ := exists_of_run_cons hrun
    exact ih (h.accept haccept).1 hrun

/-- The stack that a line leaves behind carries the line's indentation on top. -/
theorem Nested.head?_of_run {before : List Indent} (h : stack.Nested)
    (hrun : (before ++ [line]).foldlM IndentStack.accept stack = .ok final) :
    final.head? = some line := by
  obtain ⟨middle, hbefore, hline⟩ := exists_of_run_append hrun
  obtain ⟨next, haccept, hdone⟩ := exists_of_run_cons hline
  exact Except.ok.inj hdone ▸ ((h.run hbefore).accept haccept).2

theorem foldlM_check_eq (texts : List (List Char)) (stack : IndentStack) :
    texts.foldlM check stack = (texts.map Indent.ofText).foldlM IndentStack.accept stack := by
  rw [List.foldlM_map]
  rfl

theorem map_ofText_stops (texts : List (List Char)) :
    (texts.map Indent.ofText).map Indent.stops = texts.map (columnBehind tabToStop) := by
  simp [ofText_eq_columns]

theorem map_ofText_flat (texts : List (List Char)) :
    (texts.map Indent.ofText).map Indent.flat = texts.map (columnBehind tabAsOne) := by
  simp [ofText_eq_columns]

/-- Lines are let pass exactly where the two plain algorithms let them pass at the same depths, and
    behind every line that is let pass the open blocks lie further and further in by both measures,
    from the start of the line to the line's own indentation, as many as the two algorithms find. -/
theorem check_run_iff_offsideDepths (texts : List (List Char)) :
    ((∃ final, texts.foldlM check base = .ok final) ↔
        ∃ depths, offsideDepths [0] (texts.map (columnBehind tabToStop)) = some depths ∧
          offsideDepths [0] (texts.map (columnBehind tabAsOne)) = some depths) ∧
      ∀ before text after stack, texts = before ++ text :: after →
        (before ++ [text]).foldlM check base = .ok stack →
          stack.getLast? = some ⟨0, 0⟩ ∧
          stack.Pairwise (fun inner outer =>
            outer.stops < inner.stops ∧ outer.flat < inner.flat) ∧
          stack.head? = some ⟨columnBehind tabToStop text, columnBehind tabAsOne text⟩ ∧
          ∃ depths,
            offsideDepths [0] ((before ++ [text]).map (columnBehind tabToStop)) = some depths ∧
            offsideDepths [0] ((before ++ [text]).map (columnBehind tabAsOne)) = some depths ∧
            depths.getLast? = some stack.length := by
  simp only [foldlM_check_eq, ← map_ofText_stops, ← map_ofText_flat, ← ofText_eq_columns]
  refine ⟨⟨fun ⟨final, hrun⟩ => ?_, fun ⟨depths, hstops, hflat⟩ => ?_⟩, ?_⟩
  · obtain ⟨depths, hstops, hflat, -⟩ := nested_base.depths_of_run hrun
    exact ⟨depths, hstops, hflat⟩
  · exact nested_base.exists_run hstops hflat
  · rintro before text after stack - hrun
    obtain ⟨depths, hstops, hflat, hlast⟩ := nested_base.depths_of_run hrun
    obtain ⟨hdescending, hgrounded⟩ := nested_base.run hrun
    refine ⟨hgrounded, hdescending, ?_, depths, hstops, hflat, ?_⟩
    · rw [List.map_append, List.map_cons, List.map_nil] at hrun
      exact nested_base.head?_of_run hrun
    · cases depths with
      | nil => exact absurd (length_of_offsideDepths hstops) (by simp)
      | cons depth inside => exact hlast

end IndentStack

end SourceSurvey.Syntax
