import Mathlib.Data.List.TakeWhile
import WhileLang.Proofs.Json.ReadBack
import WhileLang.Trace.Summary

/-!
# The lines of a trace

Each event is written on a line of its own and read back from it as the entry that it stands for. A trace that has
been written may have other lines in it, as long as these are blank or hold no entry; what is read from it are the
entries of its events all the same.
-/

namespace WhileLang

namespace Json

/-! ## Compact texts have no line breaks -/

theorem newline_notMem_quoteChar (c : Char) : '\n' ∉ quoteChar c := by
  unfold quoteChar
  split
  case h_8 hfeed _ _ =>
    split
    · next hescaped =>
      have hlt : c.toNat < 65536 := by
        rcases hescaped with h | rfl | rfl | rfl | h | h
        · omega
        · decide
        · decide
        · decide
        · omega
        · omega
      have hdigit : ∀ k, '\n' ≠ Text.hexDigit (k % 16) := by
        have hall : ∀ k < 16, '\n' ≠ Text.hexDigit k := by decide
        exact fun k => hall _ (Nat.mod_lt k (by omega))
      simp only [escapeUnit, Text.hexDigits, List.nil_append, List.cons_append, List.mem_cons, List.not_mem_nil,
        or_false, not_or]
      exact ⟨by decide, by decide, hdigit _, hdigit _, hdigit _, hdigit _⟩
    · intro hmem
      exact hfeed (List.mem_singleton.1 hmem).symm
  all_goals decide

theorem newline_notMem_flatMap (cs : List Char) : '\n' ∉ cs.flatMap quoteChar := by
  intro hmem
  obtain ⟨c, -, hc⟩ := List.mem_flatMap.1 hmem
  exact newline_notMem_quoteChar c hc

/-- What is joined by commas has a line break only if a part has one. -/
theorem newline_notMem_intercalate {parts : List (List Char)} (h : ∀ part ∈ parts, '\n' ∉ part) :
    '\n' ∉ [','].intercalate parts := by
  induction parts with
  | nil => exact List.not_mem_nil
  | cons part parts ih =>
    obtain ⟨hpart, hrest⟩ := List.forall_mem_cons.1 h
    cases parts with
    | nil =>
      rw [List.intercalate_singleton]
      exact hpart
    | cons next rest =>
      rw [List.intercalate_cons_cons, List.mem_append, List.mem_append, not_or, not_or]
      exact ⟨⟨hpart, by decide⟩, ih hrest⟩

/-- A compact text stays on its line. -/
theorem Nested.newline_notMem {depth : Nat} {j : Json} (h : Nested depth j) : '\n' ∉ j.chars := by
  induction h with
  | null => decide
  | bool b =>
    cases b with
    | true => decide
    | false => decide
  | int n =>
    have hdigits : ∀ n : Nat, '\n' ∉ Nat.toDigits 10 n := by
      intro n hmem
      exact absurd (Nat.isDigit_of_mem_toDigits (by omega) (by omega) hmem) (by decide)
    show '\n' ∉ (toString n).toList
    rw [Text.toList_toString]
    split
    · exact hdigits _
    · rw [List.mem_cons, not_or]
      exact ⟨by decide, hdigits _⟩
  | text s =>
    rw [chars_text]
    have hinside := newline_notMem_flatMap s.toList
    simpa using hinside
  | @list _ items _ ih =>
    rw [chars_list]
    have hinside : '\n' ∉ [','].intercalate (items.map chars) := by
      refine newline_notMem_intercalate fun part hpart => ?_
      obtain ⟨j, hj, rfl⟩ := List.mem_map.1 hpart
      exact ih j hj
    simpa using hinside
  | @object _ members _ ih =>
    rw [chars_object]
    have hinside : '\n' ∉ [','].intercalate (members.map memberChars) := by
      refine newline_notMem_intercalate fun part hpart => ?_
      obtain ⟨m, hm, rfl⟩ := List.mem_map.1 hpart
      have hkey := newline_notMem_flatMap m.1.toList
      have hvalue := ih m hm
      simpa [memberChars, hkey] using hvalue
    simpa using hinside

end Json

namespace Trace

open Json (Nested)

/-! ## Entries -/

/-- The entry of an event. -/
def Entry.ofEvent (time runId : String) (e : Event) : Entry :=
  { event := e.name, runId := runId, time := time, data := e.data.reverse }

/-- An event is an object that may hold other objects, but nothing deeper. -/
theorem nested_toJson (depth : Nat) (time runId : String) (e : Event) : Nested (depth + 2) (e.toJson time runId) := by
  refine .object fun m hm => ?_
  rcases List.mem_append.1 hm with hm | hm
  · rcases List.mem_append.1 hm with hm | hm
    · simp only [List.mem_cons, List.not_mem_nil, or_false] at hm
      rcases hm with rfl | rfl | rfl
      · exact .text _
      · exact .text _
      · exact .text _
    · split at hm
      · next s _ =>
        rw [List.mem_singleton.1 hm]
        refine .object fun m hm => ?_
        simp only [List.mem_cons, List.not_mem_nil, or_false] at hm
        rcases hm with rfl | rfl | rfl | rfl | rfl
        · exact .text _
        all_goals exact .int _
      · exact absurd hm List.not_mem_nil
  · split at hm
    · exact absurd hm List.not_mem_nil
    · rw [List.mem_singleton.1 hm]
      refine .object fun m hm => ?_
      obtain ⟨p, -, rfl⟩ := List.mem_map.1 hm
      exact .text _

theorem addDetails_map (details : List (String × String)) : ∀ data,
    Entry.addDetails data (details.map fun p => (p.1, Json.text p.2)) = some (details.reverse ++ data) := by
  induction details with
  | nil => exact fun data => rfl
  | cons p rest ih =>
    intro data
    rw [List.map_cons, Entry.addDetails]
    show Entry.addDetails ((p.1, p.2) :: data) _ = _
    rw [ih, List.reverse_cons, List.append_assoc]
    rfl

/-- The JSON of an event holds its entry. -/
theorem ofJson?_toJson (time runId : String) (e : Event) :
    Entry.ofJson? (e.toJson time runId) = some (Entry.ofEvent time runId e) := by
  have htime : Entry.setMember {} "ts" (.text time) = some { time := time } := rfl
  have hrun : Entry.setMember { time := time } "runId" (.text runId) = some { runId := runId, time := time } := rfl
  have hevent : Entry.setMember { runId := runId, time := time } "event" (.text e.name) =
      some { event := e.name, runId := runId, time := time } := rfl
  have hspan : ∀ (entry : Entry) (s : Span), entry.setMember "span" s.toJson = some entry := fun _ _ => rfl
  have hdata : e.data.isEmpty = false := by cases e <;> rfl
  have hdetails : ∀ entry : Entry, entry.data = [] →
      [("data", Json.object (e.data.map fun p => (p.1, Json.text p.2)))].foldlM
        (fun e m => e.setMember m.1 m.2) entry = some { entry with data := e.data.reverse } := by
    intro entry hentry
    show (Entry.setMember entry "data" (.object _)).bind _ = _
    have hset : Entry.setMember entry "data" (.object (e.data.map fun p => (p.1, Json.text p.2))) =
        (Entry.addDetails entry.data (e.data.map fun p => (p.1, Json.text p.2))).bind
          fun data => some { entry with data := data } := rfl
    rw [hset, addDetails_map, hentry, List.append_nil]
    rfl
  simp only [Event.toJson, Entry.ofJson?, List.cons_append, List.nil_append, List.foldlM_cons,
    htime, hrun, hevent, hdata, Option.bind_eq_bind, Option.bind_some, Bool.false_eq_true, if_false]
  cases e.span? with
  | none => exact hdetails _ rfl
  | some s =>
    simp only [List.cons_append, List.nil_append, List.foldlM_cons, hspan, Option.bind_eq_bind, Option.bind_some]
    exact hdetails _ rfl

/-- Trimming leaves a text alone that has no blanks at its ends. -/
theorem trimList_eq {c d : Char} (hc : Text.isBlank c = false) (hd : Text.isBlank d = false) (cs : List Char) :
    Text.trimList (c :: cs ++ [d]) = c :: cs ++ [d] := by
  rw [Text.trimList, List.cons_append, List.dropWhile_cons_of_neg (by simp [hc])]
  have hreverse : (c :: (cs ++ [d])).reverse = d :: (c :: cs).reverse := by simp
  rw [hreverse, List.dropWhile_cons_of_neg (by simp [hd]), ← hreverse, List.reverse_reverse]

/-- The text of an event is read back as its entry. -/
theorem read?_compact (time runId : String) (e : Event) :
    Entry.read? (e.toJson time runId).compact.toList = some (Entry.ofEvent time runId e) := by
  have htrim : Text.trimList (e.toJson time runId).compact.toList = (e.toJson time runId).compact.toList := by
    show Text.trimList (e.toJson time runId).chars = (e.toJson time runId).chars
    rw [Event.toJson, Json.chars_object]
    exact trimList_eq rfl rfl _
  have hread : Json.read? (e.toJson time runId).compact.toList = some (e.toJson time runId) :=
    Json.read?_compact (nested_toJson 9998 time runId e)
  rw [Entry.read?, htrim, hread]
  exact ofJson?_toJson time runId e

/-! ## Lines -/

namespace Summary

theorem splitLines_append {line : List Char} (hline : '\n' ∉ line) (rest : List Char) :
    ∀ current acc, splitLines (line ++ rest) current acc = splitLines rest (line.reverse ++ current) acc := by
  induction line with
  | nil => exact fun current acc => rfl
  | cons c line ih =>
    intro current acc
    rw [List.mem_cons, not_or] at hline
    rw [List.cons_append, splitLines, if_neg (Ne.symm hline.1), ih hline.2, List.reverse_cons, List.append_assoc]
    rfl

/-- Lines that are complete stand before those that follow. -/
theorem splitLines_acc (text : List Char) :
    ∀ current acc, splitLines text current acc = acc.reverse ++ splitLines text current [] := by
  induction text with
  | nil =>
    intro current acc
    rw [splitLines, splitLines, List.reverse_cons]
    rfl
  | cons c text ih =>
    intro current acc
    rw [splitLines, splitLines]
    split
    · rw [ih [] (current.reverse :: acc), ih [] [current.reverse], List.reverse_cons, List.append_assoc]
      rfl
    · exact ih _ _

theorem splitLines_last {line : List Char} (hline : '\n' ∉ line) : splitLines line [] [] = [line] := by
  have hsplit := splitLines_append hline [] [] []
  rw [List.append_nil, List.append_nil] at hsplit
  rw [hsplit, splitLines, List.reverse_reverse]
  rfl

theorem splitLines_line {line : List Char} (hline : '\n' ∉ line) (rest : List Char) :
    splitLines (line ++ '\n' :: rest) [] [] = line :: splitLines rest [] [] := by
  rw [splitLines_append hline, List.append_nil, splitLines, if_pos rfl, List.reverse_reverse,
    splitLines_acc rest [] [line]]
  rfl

end Summary

/-- A line of a trace that counts for nothing: it is blank, or no entry can be read from it. -/
def Noise (line : List Char) : Prop :=
  '\n' ∉ line ∧ ((∀ c ∈ line, Text.isBlank c = true) ∨ Entry.read? line = none)

/-- No entry is read from a line that counts for nothing. -/
theorem Noise.read?_eq_none {line : List Char} (h : Noise line) : Entry.read? line = none := by
  rcases h.2 with hblank | hnone
  · have htrim : Text.trimList line = [] := by
      rw [Text.trimList, List.dropWhile_eq_nil_iff.2 hblank]
      rfl
    rw [Entry.read?, htrim]
    rfl
  · exact hnone

/-- A text is a trace of events: it has a line for each of them in order, with the time when it was written, and
anything that counts for nothing between these lines, before them and after them. -/
inductive Written (runId : String) : List (String × Event) → List Char → Prop
  | last {line : List Char} (h : Noise line) : Written runId [] line
  | noise {events : List (String × Event)} {line text : List Char} (h : Noise line) (ht : Written runId events text) :
    Written runId events (line ++ '\n' :: text)
  | event {events : List (String × Event)} {text : List Char} (time : String) (e : Event)
      (ht : Written runId events text) : Written runId ((time, e) :: events) ((e.line time runId).toList ++ text)

/-- The trace that a run writes is one. -/
theorem written_join (runId : String) (events : List (String × Event)) :
    Written runId events (String.join (events.map fun p => p.2.line p.1 runId)).toList := by
  rw [String.toList_join]
  induction events with
  | nil => exact .last ⟨List.not_mem_nil, .inl fun c hc => absurd hc List.not_mem_nil⟩
  | cons p rest ih => exact .event p.1 p.2 ih

/-- What is read from a trace are the entries of its events, whatever else stands between them. -/
theorem Written.entries {runId : String} {events : List (String × Event)} {text : List Char}
    (h : Written runId events text) :
    (Summary.splitLines text [] []).filterMap Entry.read? =
      events.map fun p => Entry.ofEvent p.1 runId p.2 := by
  induction h with
  | last hnoise =>
    rw [Summary.splitLines_last hnoise.1, List.filterMap_cons_none hnoise.read?_eq_none]
    rfl
  | noise hnoise _ ih =>
    rw [Summary.splitLines_line hnoise.1, List.filterMap_cons_none hnoise.read?_eq_none, ih]
  | event time e _ ih =>
    have hline : (e.line time runId).toList = (e.toJson time runId).compact.toList ++ ['\n'] := by
      rw [Event.line, String.toList_append]
      rfl
    have hfeed : '\n' ∉ (e.toJson time runId).compact.toList := (nested_toJson 0 time runId e).newline_notMem
    rw [hline, List.append_assoc, List.singleton_append, Summary.splitLines_line hfeed,
      List.filterMap_cons_some (read?_compact time runId e), ih, List.map_cons]

end Trace

end WhileLang
