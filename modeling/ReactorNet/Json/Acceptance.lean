import ReactorNet.Json.Strings
import ReactorNet.Json.Numbers

/-!
# ReactorNet — the reader accepts exactly the grammar

Strings and numbers are put together to values, by induction on the number of
containers that may still be entered. For the items of one container the argument is
the same for arrays and objects, and rests on three facts about the items
(`Reads`): what the reader takes is an item, an item is taken where no number goes on
behind it, and an item does not start with whitespace or a closing bracket.

Main results:

* `parseItems_sound` / `parseItems_complete` — the loop over the items of a container.
* `parseValue_reads` — values, for every depth.
* `parse_iff_grammar` — the parser accepts exactly the texts of the grammar.
-/

namespace ReactorNet.Json

open ReactorNet.Lib

namespace Reader

variable {input : Bytes}

/-! ## Whitespace -/

theorem isWhitespace_iff {b : UInt8} :
    isWhitespace b = true ↔ b = 0x20 ∨ b = 0x09 ∨ b = 0x0A ∨ b = 0x0D := by
  simp [isWhitespace, or_assoc]

theorem le_skipWhile (p : UInt8 → Bool) (i : Nat) : i ≤ skipWhile input p i := by
  refine loop_induct (P := fun i j => i ≤ j) skipPass_lt ?_ ?_ i
  · intro i j h
    rw [skipPass] at h
    split_ifs at h
    cases h
    exact Nat.le_refl _
  · intro i i' j h hj
    rw [skipPass] at h
    split_ifs at h
    cases h
    omega

theorem skipWhitespace_spans {i : Nat} (hi : skipWhitespace input i ≤ input.length) :
    ∃ w, IsWhitespace w ∧ Spans input i w (skipWhitespace input i) := by
  have hle : i ≤ skipWhitespace input i := le_skipWhile isWhitespace i
  obtain ⟨w, hSpan, hAll, -⟩ := skipWhile_spans isWhitespace (show i ≤ input.length by omega)
  exact ⟨w, fun b hb => isWhitespace_iff.mp (hAll b hb), hSpan⟩

theorem skipWhitespace_eq {w : Bytes} {i j : Nat} (hw : IsWhitespace w) (hs : Spans input i w j)
    (hNext : holdsAt input j isWhitespace = false) : skipWhitespace input i = j :=
  skipWhile_eq hs (fun b hb => isWhitespace_iff.mpr (hw b hb)) hNext

/-! ## Items -/

/-- The item does not start with whitespace or a closing bracket. -/
def Starts (s : Bytes) : Prop :=
  ∃ b t, s = b :: t ∧ isWhitespace b = false ∧ b ≠ 0x5D ∧ b ≠ 0x7D

/-- The function reads the items that `P` describes. -/
structure Reads {α : Type} (input : Bytes) (item : Nat → Option (α × Nat))
    (P : Bytes → α → Prop) : Prop where
  sound : ∀ i v j, item i = some (v, j) → ∃ s, P s v ∧ Spans input i s j
  complete : ∀ i s v j, P s v → Spans input i s j →
    holdsAt input j continuesNumber = false → item i = some (v, j)
  starts : ∀ s v, P s v → Starts s

section Items

variable {α : Type} {item : Nat → Option (α × Nat)} {P : Bytes → α → Prop} {close : UInt8}

variable {i j : Nat} {vs : List α} {s w : Bytes}

theorem Reads.spans (hReads : Reads input item P) {k : Nat} {v : α}
    (h : item (skipWhitespace input i) = some (v, k)) (hk : skipWhitespace input k < input.length) :
    ∃ w s w', IsWhitespace w ∧ P s v ∧ IsWhitespace w' ∧
      Spans input i (w ++ (s ++ w')) (skipWhitespace input k) := by
  obtain ⟨s, hs, hItem⟩ := hReads.sound _ _ _ h
  obtain ⟨w, hw, hBefore⟩ := skipWhitespace_spans hItem.1
  obtain ⟨w', hw', hAfter⟩ := skipWhitespace_spans (Nat.le_of_lt hk)
  exact ⟨w, s, w', hw, hs, hw', hBefore.trans (hItem.trans hAfter)⟩

/-- A pass that goes on has read an item and a comma. -/
theorem itemPass_again (hReads : Reads input item P) {s' : Option (List α × Nat)}
    (h : itemPass input item close (some (vs, i)) = .again s') :
    ∃ w s w' v j, IsWhitespace w ∧ P s v ∧ IsWhitespace w' ∧
      Spans input i (w ++ (s ++ w')) j ∧ input[j]? = some 0x2C ∧
      s' = some (vs ++ [v], j + 1) := by
  simp only [itemPass] at h
  split at h
  · cases h
  · rename_i v k hItem
    split_ifs at h with hk hComma
    obtain ⟨w, s, w', hw, hs, hw', hSpan⟩ := hReads.spans hItem hk
    cases h
    exact ⟨w, s, w', v, _, hw, hs, hw', hSpan, by rw [List.getElem?_eq_getElem hk, hComma], rfl⟩

/-- A pass that succeeds has read an item and the closing bracket. -/
theorem itemPass_done (hReads : Reads input item P) {r : List α × Nat}
    (h : itemPass input item close (some (vs, i)) = .done (some r)) :
    ∃ w s w' v j, IsWhitespace w ∧ P s v ∧ IsWhitespace w' ∧
      Spans input i (w ++ (s ++ w')) j ∧ input[j]? = some close ∧ r = (vs ++ [v], j + 1) := by
  simp only [itemPass] at h
  split at h
  · cases h
  · rename_i v k hItem
    split_ifs at h with hk hComma hClose
    · obtain ⟨w, s, w', hw, hs, hw', hSpan⟩ := hReads.spans hItem hk
      cases h
      exact ⟨w, s, w', v, _, hw, hs, hw', hSpan, by rw [List.getElem?_eq_getElem hk, hClose], rfl⟩
    · cases h
    · cases h

theorem itemPass_lt (hReads : Reads input item P) (s s' : Option (List α × Nat))
    (h : itemPass input item close s = .again s') : left input s' < left input s := by
  cases s with
  | none => cases h
  | some state =>
    obtain ⟨w, s, w', v, j, -, -, -, hSpan, hComma, rfl⟩ := itemPass_again hReads h
    have hj := (List.getElem?_eq_some_iff.mp hComma).1
    have hLen := hSpan.length
    simp only [left]
    omega

theorem items_loop_sound (hReads : Reads input item P) {vs' : List α}
    (h : loop (left input) (itemPass input item close) (some (vs, i)) = some (vs', j)) :
    ∃ s us, IsItems P s us ∧ vs' = vs ++ us ∧ Spans input i (s ++ [close]) j := by
  refine loop_induct (P := fun s r => ∀ vs i vs' j, s = some (vs, i) → r = some (vs', j) →
    ∃ s us, IsItems P s us ∧ vs' = vs ++ us ∧ Spans input i (s ++ [close]) j)
    (itemPass_lt hReads) ?_ ?_ _ vs i vs' j rfl h
  · -- the last item and the closing bracket
    rintro _ _ hDone vs i vs' j rfl rfl
    obtain ⟨w, s, w', v, k, hw, hs, hw', hSpan, hClose, hr⟩ := itemPass_done hReads hDone
    cases hr
    exact ⟨_, [v], .one hw hs hw', rfl, hSpan.trans (spans_singleton.mpr ⟨hClose, rfl⟩)⟩
  · -- an item, its comma, and the items after it
    rintro _ _ _ hAgain ih vs i vs' j rfl rfl
    obtain ⟨w, s, w', v, k, hw, hs, hw', hSpan, hComma, rfl⟩ := itemPass_again hReads hAgain
    obtain ⟨t, us, ht, rfl, hRest⟩ := ih _ _ _ _ rfl rfl
    refine ⟨_, v :: us, .cons hw hs hw' ht, by simp, ?_⟩
    have hAll := hSpan.trans (spans_cons.mpr ⟨hComma, hRest⟩)
    simpa using hAll

/-- A byte that ends whitespace and numbers. -/
def IsDelimiter (b : UInt8) : Prop := isWhitespace b = false ∧ continuesNumber b = false

theorem continuesNumber_whitespace (hw : IsWhitespace w) {b : UInt8} (hb : w.head? = some b) :
    continuesNumber b = false := by
  rcases hw b (List.mem_of_head? hb) with rfl | rfl | rfl | rfl <;> decide

theorem skipWhitespace_starts {k : Nat} (hw : IsWhitespace w) (hs : Starts s)
    (hw' : Spans input i w j) (hs' : Spans input j s k) : skipWhitespace input i = j := by
  obtain ⟨b, t, rfl, hb, -⟩ := hs
  refine skipWhitespace_eq hw hw' ?_
  rw [holdsAt_of_getElem? (spans_cons.mp hs').1, hb]

/-- The reader takes an item and stops at the delimiter behind it. -/
theorem Reads.step (hReads : Reads input item P) {w' : Bytes} {v : α} (hw : IsWhitespace w)
    (hs : P s v) (hw' : IsWhitespace w') (hSpan : Spans input i (w ++ (s ++ w')) j) {b : UInt8}
    (hb : input[j]? = some b) (hDelimiter : IsDelimiter b) :
    ∃ k, item (skipWhitespace input i) = some (v, k) ∧ skipWhitespace input k = j := by
  obtain ⟨a, hBefore, hSpan⟩ := spans_append.mp hSpan
  obtain ⟨k, hItem, hAfter⟩ := spans_append.mp hSpan
  refine ⟨k, ?_, ?_⟩
  · -- what stands behind the item is whitespace or the delimiter: no number goes on there
    rw [skipWhitespace_starts hw (hReads.starts s v hs) hBefore hItem]
    refine hReads.complete a s v k hs hItem ?_
    refine holdsAt_eq_false hAfter (fun b hb => continuesNumber_whitespace hw' hb) fun _ => ?_
    rw [holdsAt_of_getElem? hb, hDelimiter.2]
  · refine skipWhitespace_eq hw' hAfter ?_
    rw [holdsAt_of_getElem? hb, hDelimiter.1]

theorem items_loop_complete (hReads : Reads input item P) (hClose : IsDelimiter close)
    (hComma : close ≠ 0x2C) {us : List α} (hs : IsItems P s us)
    (hSpan : Spans input i (s ++ [close]) j) :
    loop (left input) (itemPass input item close) (some (vs, i)) = some (vs ++ us, j) := by
  induction hs generalizing vs i with
  | one hw hs hw' =>
    obtain ⟨k, hItem, hLast⟩ := spans_append.mp hSpan
    obtain ⟨hGet, rfl⟩ := spans_singleton.mp hLast
    -- the last item: the loop leaves at the bracket, which is not a comma
    obtain ⟨l, hRead, hSkip⟩ := hReads.step hw hs hw' hItem hGet hClose
    obtain ⟨hk, hGet⟩ := List.getElem?_eq_some_iff.mp hGet
    apply loop_done
    simp only [itemPass, hRead, hSkip, dif_pos hk, hGet, if_neg hComma, if_true]
  | @cons w s w' t v us hw hs hw' ht ih =>
    -- cut at the comma, which no item starts or ends with
    have hSpan : Spans input i ((w ++ (s ++ w')) ++ 0x2C :: (t ++ [close])) j := by
      simpa using hSpan
    obtain ⟨k, hItem, hRest⟩ := spans_append.mp hSpan
    obtain ⟨hGet, hRest⟩ := spans_cons.mp hRest
    obtain ⟨l, hRead, hSkip⟩ := hReads.step hw hs hw' hItem hGet ⟨by decide, by decide⟩
    obtain ⟨hk, hGet⟩ := List.getElem?_eq_some_iff.mp hGet
    have hPass : itemPass input item close (some (vs, i)) = .again (some (vs ++ [v], k + 1)) := by
      simp only [itemPass, hRead, hSkip, dif_pos hk, hGet, if_true]
    have hSplit : vs ++ v :: us = (vs ++ [v]) ++ us := by simp
    rw [loop_again (itemPass_lt hReads) hPass, hSplit]
    exact ih hRest

theorem isWhitespace_append {w' : Bytes} (hw : IsWhitespace w) (hw' : IsWhitespace w') :
    IsWhitespace (w ++ w') := fun b hb =>
  (List.mem_append.mp hb).elim (hw b) (hw' b)

/-- Whitespace in front of the items belongs to the first of them. -/
theorem isItems_whitespace (hw : IsWhitespace w) (hs : IsItems P s vs) : IsItems P (w ++ s) vs := by
  cases hs with
  | one hw₁ hs hw' =>
    rw [← List.append_assoc]
    exact .one (isWhitespace_append hw hw₁) hs hw'
  | cons hw₁ hs hw' ht =>
    rw [← List.append_assoc]
    exact .cons (isWhitespace_append hw hw₁) hs hw' ht

/-- Items without the whitespace in front of the first of them. -/
theorem isItems_strip (hStarts : ∀ s v, P s v → Starts s) (hs : IsItems P s vs) :
    ∃ w t, s = w ++ t ∧ IsWhitespace w ∧ IsItems P t vs ∧ Starts t := by
  cases hs with
  | @one w s w' v hw hs hw' =>
    obtain ⟨b, t, rfl, hb⟩ := hStarts s v hs
    exact ⟨w, _, rfl, hw, .one isWhitespace_nil hs hw', b, _, rfl, hb⟩
  | @cons w s w' t v vs hw hs hw' ht =>
    obtain ⟨b, u, rfl, hb⟩ := hStarts s v hs
    exact ⟨w, _, rfl, hw, .cons isWhitespace_nil hs hw' ht, b, _, rfl, hb⟩

theorem parseItems_sound (hReads : Reads input item P) {first : UInt8}
    (hFirst : input[i]? = some first) (h : parseItems input item close i = some (vs, j)) :
    ∃ s, IsBracketed first close P s vs ∧ Spans input i s j := by
  rw [parseItems] at h
  split_ifs at h with hEmpty
  · -- nothing but whitespace between the brackets
    cases h
    have hk := (List.getElem?_eq_some_iff.mp (holdsAt_beq.mp hEmpty)).1
    obtain ⟨w, hw, hSpan⟩ := skipWhitespace_spans (Nat.le_of_lt hk)
    exact ⟨_, .empty hw, spans_cons.mpr ⟨hFirst,
      hSpan.trans (spans_singleton.mpr ⟨holdsAt_beq.mp hEmpty, rfl⟩)⟩⟩
  · -- the whitespace that was skipped first is the first item's
    obtain ⟨s, us, hs, rfl, hSpan⟩ := items_loop_sound hReads h
    obtain ⟨w, hw, hBefore⟩ := skipWhitespace_spans hSpan.1
    refine ⟨_, .items (isItems_whitespace hw hs), spans_cons.mpr ⟨hFirst, ?_⟩⟩
    rw [List.append_assoc]
    exact hBefore.trans hSpan

theorem parseItems_complete (hReads : Reads input item P) (hClose : close = 0x5D ∨ close = 0x7D)
    {first : UInt8} (hs : IsBracketed first close P s vs) (hSpan : Spans input i s j) :
    parseItems input item close i = some (vs, j) := by
  have hDelimiter : IsDelimiter close := by
    rcases hClose with rfl | rfl <;> exact ⟨by decide, by decide⟩
  have hComma : close ≠ 0x2C := by
    rcases hClose with rfl | rfl <;> decide
  rw [parseItems]
  cases hs with
  | empty hw =>
    obtain ⟨-, hSpan⟩ := spans_cons.mp hSpan
    obtain ⟨k, hBefore, hLast⟩ := spans_append.mp hSpan
    obtain ⟨hGet, rfl⟩ := spans_singleton.mp hLast
    have hSkip : skipWhitespace input (i + 1) = k := by
      refine skipWhitespace_eq hw hBefore ?_
      rw [holdsAt_of_getElem? hGet, hDelimiter.1]
    rw [hSkip, if_pos (holdsAt_beq.mpr hGet)]
  | items hs =>
    obtain ⟨-, hSpan⟩ := spans_cons.mp hSpan
    obtain ⟨w, t, rfl, hw, ht, hStarts⟩ := isItems_strip hReads.starts hs
    rw [List.append_assoc] at hSpan
    obtain ⟨k, hBefore, hRest⟩ := spans_append.mp hSpan
    obtain ⟨l, hItems, -⟩ := spans_append.mp hRest
    have hSkip := skipWhitespace_starts hw hStarts hBefore hItems
    -- the first item does not look like the closing bracket
    have hNot : ¬ holdsAt input k (· == close) = true := by
      obtain ⟨b, u, rfl, -, hArray, hObject⟩ := hStarts
      rw [holdsAt_of_getElem? (spans_cons.mp hItems).1, beq_iff_eq]
      rintro rfl
      rcases hClose with rfl | rfl
      · exact hArray rfl
      · exact hObject rfl
    rw [hSkip, if_neg hNot]
    exact items_loop_complete hReads hDelimiter hComma ht hRest

end Items

/-! ## Members -/

theorem starts_quote (s : Bytes) : Starts (0x22 :: s) :=
  ⟨0x22, s, rfl, by decide, by decide, by decide⟩

theorem parseMember_reads {α : Type} {value : Nat → Option (α × Nat)} {P : Bytes → α → Prop}
    (hReads : Reads input value P) : Reads input (parseMember input value) (IsMember P) where
  sound := by
    rintro i ⟨key, v⟩ j h
    rw [parseMember] at h
    obtain ⟨⟨text, k⟩, hKey, h⟩ := Option.bind_eq_some_iff.mp h
    dsimp only at h
    split_ifs at h with hColon
    obtain ⟨⟨u, l⟩, hValue, h⟩ := Option.bind_eq_some_iff.mp h
    cases h
    -- key, colon and value, with the whitespace that was skipped between them
    obtain ⟨t, ht, hKeySpan⟩ := parseString_iff.mp hKey
    obtain ⟨s, hs, hSpan⟩ := hReads.sound _ _ _ hValue
    have hGet := holdsAt_beq.mp hColon
    obtain ⟨w, hw, hBefore⟩ := skipWhitespace_spans
      (Nat.le_of_lt (List.getElem?_eq_some_iff.mp hGet).1)
    obtain ⟨w', hw', hAfter⟩ := skipWhitespace_spans hSpan.1
    exact ⟨_, .mk ht hw hw' hs,
      hKeySpan.trans (hBefore.trans (spans_cons.mpr ⟨hGet, hAfter.trans hSpan⟩))⟩
  complete := by
    rintro i _ _ j ⟨hk, hw, hw', hs⟩ hSpan hEnd
    obtain ⟨a, hKey, hSpan⟩ := spans_append.mp hSpan
    obtain ⟨b, hBefore, hSpan⟩ := spans_append.mp hSpan
    obtain ⟨hGet, hSpan⟩ := spans_cons.mp hSpan
    obtain ⟨c, hAfter, hValue⟩ := spans_append.mp hSpan
    have hSkip : skipWhitespace input a = b := by
      refine skipWhitespace_eq hw hBefore ?_
      rw [holdsAt_of_getElem? hGet]
      decide
    have hSkip' := skipWhitespace_starts hw' (hReads.starts _ _ hs) hAfter hValue
    simp only [parseMember, parseString_iff.mpr ⟨_, hk, hKey⟩, Option.bind_eq_bind,
      Option.bind_some, hSkip, if_pos (holdsAt_beq.mpr hGet), hSkip',
      hReads.complete _ _ _ _ hs hValue hEnd]
    rfl
  starts := by
    rintro _ _ ⟨⟨hk⟩, -, -, -⟩
    exact starts_quote _

/-! ## Values -/

variable {lib : DoubleChars}

theorem number_ne {b c : UInt8} (hb : isDigit b = true ∨ b = 0x2D)
    (hc : isDigit c = false ∧ c ≠ 0x2D) : b ≠ c := by
  rintro rfl
  rcases hb with h | h
  · rw [h] at hc
    exact absurd hc.1 (by decide)
  · exact hc.2 h

theorem starts_number {t : Bytes} (h : IsNumber t) : Starts t := by
  obtain ⟨b, s, rfl, hb⟩ := h.head
  refine ⟨b, s, rfl, ?_, number_ne hb (by decide), number_ne hb (by decide)⟩
  rw [← Bool.not_eq_true, isWhitespace_iff]
  rintro (h | h | h | h)
  · exact number_ne hb (by decide) h
  · exact number_ne hb (by decide) h
  · exact number_ne hb (by decide) h
  · exact number_ne hb (by decide) h

variable {s : Bytes} {v : JsonValue lib.Double} {d i j : Nat}

theorem starts_scalar (h : IsScalar lib s v) : Starts s := by
  cases h with
  | null => exact ⟨_, _, rfl, by decide, by decide, by decide⟩
  | true => exact ⟨_, _, rfl, by decide, by decide, by decide⟩
  | false => exact ⟨_, _, rfl, by decide, by decide, by decide⟩
  | string hs =>
    cases hs
    exact starts_quote _
  | integer hs => exact starts_number hs.number
  | number hs => exact starts_number hs

theorem starts_value (h : IsValue lib d s v) : Starts s := by
  have hBracket : ∀ {first : UInt8} (t : Bytes), first = 0x5B ∨ first = 0x7B →
      Starts (first :: t) := by
    rintro first t (rfl | rfl) <;> exact ⟨_, t, rfl, by decide, by decide, by decide⟩
  cases d with
  | zero => exact starts_scalar h
  | succ d =>
    rcases h with h | ⟨items, -, h⟩ | ⟨members, -, h⟩
    · exact starts_scalar h
    · cases h <;> exact hBracket _ (.inl rfl)
    · cases h <;> exact hBracket _ (.inr rfl)

theorem parseValue_number {t : Bytes} (ht : IsNumber t) (hSpan : Spans input i t j) :
    parseValue lib input d i = parseNumber lib input i := by
  obtain ⟨b, s, rfl, hb⟩ := ht.head
  obtain ⟨hi, hGet⟩ := List.getElem?_eq_some_iff.mp (spans_cons.mp hSpan).1
  rw [parseValue.eq_def, dif_pos hi, hGet, if_neg (number_ne hb (by decide)),
    if_neg (number_ne hb (by decide)), if_neg (number_ne hb (by decide)),
    if_neg (number_ne hb (by decide)), if_neg (number_ne hb (by decide)),
    if_neg (number_ne hb (by decide))]

theorem parseValue_scalar (hs : IsScalar lib s v) (hSpan : Spans input i s j)
    (hEnd : holdsAt input j continuesNumber = false) : parseValue lib input d i = some (v, j) := by
  -- the first byte picks the case of the switch
  have hConsume := (consume_iff hSpan.1).mpr hSpan
  cases hs with
  | null =>
    obtain ⟨hi, hGet⟩ := List.getElem?_eq_some_iff.mp (spans_cons.mp hSpan).1
    rw [parseValue.eq_def, dif_pos hi, hGet, if_pos rfl, hConsume]
    rfl
  | true =>
    obtain ⟨hi, hGet⟩ := List.getElem?_eq_some_iff.mp (spans_cons.mp hSpan).1
    rw [parseValue.eq_def, dif_pos hi, hGet, if_neg (by decide), if_pos rfl, hConsume]
    rfl
  | false =>
    obtain ⟨hi, hGet⟩ := List.getElem?_eq_some_iff.mp (spans_cons.mp hSpan).1
    rw [parseValue.eq_def, dif_pos hi, hGet, if_neg (by decide), if_neg (by decide), if_pos rfl,
      hConsume]
    rfl
  | string hs =>
    have hString := parseString_iff.mpr ⟨s, hs, hSpan⟩
    obtain ⟨hChars⟩ := hs
    obtain ⟨hi, hGet⟩ := List.getElem?_eq_some_iff.mp (spans_cons.mp hSpan).1
    rw [parseValue.eq_def, dif_pos hi, hGet, if_neg (by decide), if_neg (by decide),
      if_neg (by decide), if_pos rfl, hString]
    rfl
  | integer hs =>
    rw [parseValue_number hs.number hSpan]
    exact parseNumber_integer hs hSpan hEnd
  | number hs hInt hx =>
    rw [parseValue_number hs hSpan, parseNumber_double hs hInt hSpan hEnd,
      (readDouble_iff hs).mpr hx, Option.map_some]

theorem parseValue_array (hGet : input[i]? = some 0x5B) :
    parseValue lib input (d + 1) i = parseArray lib input (parseValue lib input d) i := by
  obtain ⟨hi, hGet⟩ := List.getElem?_eq_some_iff.mp hGet
  rw [parseValue.eq_def, dif_pos hi, hGet, if_neg (by decide), if_neg (by decide),
    if_neg (by decide), if_neg (by decide), if_pos rfl]

theorem parseValue_object (hGet : input[i]? = some 0x7B) :
    parseValue lib input (d + 1) i = parseObject lib input (parseValue lib input d) i := by
  obtain ⟨hi, hGet⟩ := List.getElem?_eq_some_iff.mp hGet
  rw [parseValue.eq_def, dif_pos hi, hGet, if_neg (by decide), if_neg (by decide),
    if_neg (by decide), if_neg (by decide), if_neg (by decide), if_pos rfl]

/-- What a value starts with decides how it is read: as a container, where one may still
be entered, or as a scalar. -/
theorem parseValue_sound_cases (h : parseValue lib input d i = some (v, j)) :
    (∃ s, IsScalar lib s v ∧ Spans input i s j) ∨
    (∃ b, d = b + 1 ∧ input[i]? = some 0x5B ∧
      parseArray lib input (parseValue lib input b) i = some (v, j)) ∨
    (∃ b, d = b + 1 ∧ input[i]? = some 0x7B ∧
      parseObject lib input (parseValue lib input b) i = some (v, j)) := by
  rw [parseValue.eq_def] at h
  -- the cases of the switch on the first byte
  split_ifs at h with hi hNull hTrue hFalse hQuote hArray hObject
  · obtain ⟨k, hConsume, hEq⟩ := Option.map_eq_some_iff.mp h
    cases hEq
    exact .inl ⟨_, .null, (consume_iff (Nat.le_of_lt hi)).mp hConsume⟩
  · obtain ⟨k, hConsume, hEq⟩ := Option.map_eq_some_iff.mp h
    cases hEq
    exact .inl ⟨_, .true, (consume_iff (Nat.le_of_lt hi)).mp hConsume⟩
  · obtain ⟨k, hConsume, hEq⟩ := Option.map_eq_some_iff.mp h
    cases hEq
    exact .inl ⟨_, .false, (consume_iff (Nat.le_of_lt hi)).mp hConsume⟩
  · obtain ⟨⟨text, k⟩, hString, hEq⟩ := Option.map_eq_some_iff.mp h
    cases hEq
    obtain ⟨s, hs, hSpan⟩ := parseString_iff.mp hString
    exact .inl ⟨s, .string hs, hSpan⟩
  · cases d with
    | zero => cases h
    | succ b =>
      refine .inr (.inl ⟨b, rfl, ?_, h⟩)
      rw [List.getElem?_eq_getElem hi, hArray]
  · cases d with
    | zero => cases h
    | succ b =>
      refine .inr (.inr ⟨b, rfl, ?_, h⟩)
      rw [List.getElem?_eq_getElem hi, hObject]
  · exact .inl (parseNumber_sound lib (Nat.le_of_lt hi) h)

/-- **Values.** The reader takes exactly the values of the grammar. The induction is on
the containers that may still be entered. -/
theorem parseValue_reads (d : Nat) : Reads input (parseValue lib input d) (IsValue lib d) := by
  induction d with
  | zero =>
    refine ⟨fun i v j h => ?_, fun i s v j hs hSpan hEnd => parseValue_scalar hs hSpan hEnd,
      fun s v hs => starts_value hs⟩
    -- no container may be entered: only the scalars are left
    rcases parseValue_sound_cases h with h | ⟨b, hb, -⟩ | ⟨b, hb, -⟩
    · exact h
    · cases hb
    · cases hb
  | succ d ih =>
    -- inside a container one fewer may be entered, which is the induction hypothesis
    refine ⟨fun i v j h => ?_, fun i s v j hs hSpan hEnd => ?_, fun s v hs => starts_value hs⟩
    · rcases parseValue_sound_cases h with ⟨s, hs, hSpan⟩ | ⟨b, hb, hGet, h⟩ | ⟨b, hb, hGet, h⟩
      · exact ⟨s, .inl hs, hSpan⟩
      · cases hb
        obtain ⟨⟨items, k⟩, hItems, hEq⟩ := Option.map_eq_some_iff.mp h
        cases hEq
        obtain ⟨s, hs, hSpan⟩ := parseItems_sound ih hGet hItems
        exact ⟨s, .inr (.inl ⟨items, rfl, hs⟩), hSpan⟩
      · cases hb
        obtain ⟨⟨members, k⟩, hItems, hEq⟩ := Option.map_eq_some_iff.mp h
        cases hEq
        obtain ⟨s, hs, hSpan⟩ := parseItems_sound (parseMember_reads ih) hGet hItems
        exact ⟨s, .inr (.inr ⟨members, rfl, hs⟩), hSpan⟩
    · rcases hs with hs | ⟨items, rfl, hs⟩ | ⟨members, rfl, hs⟩
      · exact parseValue_scalar hs hSpan hEnd
      · have hItems := parseItems_complete ih (.inl rfl) hs hSpan
        have hGet : input[i]? = some 0x5B := by
          cases hs <;> exact (spans_cons.mp hSpan).1
        rw [parseValue_array hGet, parseArray, hItems]
        rfl
      · have hItems := parseItems_complete (parseMember_reads ih) (.inr rfl) hs hSpan
        have hGet : input[i]? = some 0x7B := by
          cases hs <;> exact (spans_cons.mp hSpan).1
        rw [parseValue_object hGet, parseObject, hItems]
        rfl

end Reader

/-! ## Texts -/

variable {lib : DoubleChars} {maxDepth : Nat} {input : Bytes}

open Reader in
/-- What the parser accepts is a text of the grammar. -/
theorem parse_sound {v : JsonValue lib.Double} (h : parse lib maxDepth input = some v) :
    IsText lib maxDepth input v := by
  rw [parse] at h
  obtain ⟨⟨value, i⟩, hValue, h⟩ := Option.bind_eq_some_iff.mp h
  dsimp only at h
  split_ifs at h with hEnd
  cases h
  obtain ⟨s, hs, hSpan⟩ := (parseValue_reads maxDepth).sound _ _ _ hValue
  obtain ⟨w, hw, hBefore⟩ := skipWhitespace_spans hSpan.1
  obtain ⟨w', hw', hAfter⟩ := skipWhitespace_spans (Nat.le_of_eq hEnd)
  -- the three parts reach from one end of the input to the other
  have hAll := hBefore.trans (hSpan.trans hAfter)
  rw [hEnd] at hAll
  rw [← hAll.unique (spans_self input)]
  exact .mk hw hs hw'

open Reader in
theorem parse_complete {v : JsonValue lib.Double} (h : IsText lib maxDepth input v) :
    parse lib maxDepth input = some v := by
  obtain ⟨hw, hs, hw'⟩ := h
  rename_i w s w'
  have hReads : Reads (w ++ (s ++ w')) _ (IsValue lib maxDepth) := parseValue_reads maxDepth
  -- the input is cut where the text is
  obtain ⟨i, hBefore, hRest⟩ := spans_append.mp (spans_self (w ++ (s ++ w')))
  obtain ⟨j, hValue, hAfter⟩ := spans_append.mp hRest
  have hEnd : holdsAt (w ++ (s ++ w')) j continuesNumber = false :=
    holdsAt_eq_false hAfter (fun b hb => continuesNumber_whitespace hw' hb)
      fun _ => holdsAt_length _
  simp only [parse, skipWhitespace_starts hw (starts_value hs) hBefore hValue,
    hReads.complete _ _ _ _ hs hValue hEnd, Option.bind_eq_bind, Option.bind_some,
    skipWhitespace_eq hw' hAfter (holdsAt_length _), if_true]
  rfl

/-! ## The result -/

open Reader in
/-- A number token on its own, with no integer in the `int64_t` range. -/
theorem parse_number (h : IsNumber input) (hInt : ∀ n : Int64, ¬ IsInteger input n.toInt) :
    parse lib maxDepth input = (readDouble lib input).map .number := by
  have hSpan := spans_self input
  have hStart : skipWhitespace input 0 = 0 :=
    skipWhitespace_starts isWhitespace_nil (starts_number h)
      (spans_nil.mpr ⟨rfl, Nat.zero_le _⟩) hSpan
  have hEnd : skipWhitespace input input.length = input.length :=
    skipWhitespace_eq isWhitespace_nil (spans_nil.mpr ⟨rfl, Nat.le_refl _⟩) (holdsAt_length _)
  rw [parse, hStart, parseValue_number h hSpan, parseNumber_double h hInt hSpan (holdsAt_length _)]
  cases readDouble lib input with
  | none => rfl
  | some x => simp [hEnd]

/-- **The parser accepts exactly the grammar.** A byte string is parsed to a value if and
only if it derives that value, with at most `maxDepth` containers around each other. What
is accepted is UTF-8. A number token that is no `int64_t` is rejected if and only if
`from_chars` reports it out of range. -/
theorem parse_iff_grammar (lib : DoubleChars) (maxDepth : Nat) (input : Bytes) :
    (∀ v, parse lib maxDepth input = some v ↔ IsText lib maxDepth input v) ∧
    (∀ v, parse lib maxDepth input = some v → IsUtf8 input) ∧
    (IsNumber input → (∀ n : Int64, ¬ IsInteger input n.toInt) →
      (parse lib maxDepth input = none ↔ lib.fromChars input = .resultOutOfRange)) := by
  refine ⟨fun v => ⟨parse_sound, parse_complete⟩, fun v h => (parse_sound h).utf8, ?_⟩
  intro hNumber hInt
  rw [parse_number hNumber hInt, Option.map_eq_none_iff]
  -- `from_chars` takes a number token as a whole, or reports it out of range
  rcases lib.fromChars_number input hNumber with h | ⟨x, h, -⟩
  · refine iff_of_true ?_ h
    rw [Reader.readDouble, h]
  · refine iff_of_false ?_ (by rw [h]; simp)
    rw [(Reader.readDouble_iff hNumber).mpr h]
    simp

end ReactorNet.Json
