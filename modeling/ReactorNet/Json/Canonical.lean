import ReactorNet.Json.RoundTrip

/-!
# ReactorNet — JSON that was parsed can be written

A service that reads a payload and sends it on parses a text of the peer and writes the
value again. Everything the parser can produce lies within what the writer accepts: the
grammar gives strings that are UTF-8 and doubles that are finite, and it opens as many
containers around each other as the limit allows. So the second text is the canonical one
of the value: parsing and writing again does not change it.

Main results:

* `IsValue.writable` — a value of the grammar is one that can be written.
* `reserialise_canonical` — parse, write, parse, write.
-/

namespace ReactorNet.Json

open ReactorNet.Lib

variable {lib : DoubleChars}

theorem IsString.utf8_text {s text : Bytes} (h : IsString s text) : IsUtf8 text := by
  cases h with
  | mk hChars => exact hChars.utf8

/-- A number token is never read as infinity or as no number. -/
theorem IsNumber.isFinite {t : Bytes} {x : lib.Double} (h : IsNumber t)
    (hx : lib.fromChars t = .ok t.length x) : lib.isFinite x = true := by
  rcases lib.fromChars_number t h with hRange | ⟨y, hy, hFinite⟩
  · rw [hRange] at hx
    cases hx
  · rw [hy] at hx
    cases hx
    exact hFinite

theorem IsScalar.writable {s : Bytes} {v : JsonValue lib.Double} (h : IsScalar lib s v)
    (d : Nat) : Writer.Writable lib d v := by
  cases h with
  | string hs =>
    have hUtf8 := hs.utf8_text
    simp [Writer.Writable, JsonValue.nesting, JsonValue.strings, JsonValue.doubles, hUtf8]
  | number hs _ hx =>
    have hFinite := hs.isFinite hx
    simp [Writer.Writable, JsonValue.nesting, JsonValue.strings, JsonValue.doubles, hFinite]
  | null | true | false | integer =>
    simp [Writer.Writable, JsonValue.nesting, JsonValue.strings, JsonValue.doubles]

section

variable {α : Type} {P : Bytes → α → Prop} {Q : α → Prop}

/-- What every item text gives, all the items have. -/
theorem IsItems.forall_mem (hP : ∀ s v, P s v → Q v) {s : Bytes} {vs : List α}
    (h : IsItems P s vs) : ∀ v ∈ vs, Q v := by
  induction h with
  | one _ hs _ => simpa using hP _ _ hs
  | cons _ hs _ _ ih => exact List.forall_mem_cons.mpr ⟨hP _ _ hs, ih⟩

theorem IsBracketed.forall_mem (hP : ∀ s v, P s v → Q v) {first last : UInt8} {s : Bytes}
    {vs : List α} (h : IsBracketed first last P s vs) : ∀ v ∈ vs, Q v := by
  cases h with
  | empty => simp
  | items hs => exact hs.forall_mem hP

end

/-- **A value of the grammar can be written.** By induction on the containers that may still
be entered: a container takes one of them, for the grammar and for the writer. -/
theorem IsValue.writable {d : Nat} : ∀ {s : Bytes} {v : JsonValue lib.Double},
    IsValue lib d s v → Writer.Writable lib d v := by
  induction d with
  | zero =>
    intro s v h
    exact IsScalar.writable h 0
  | succ d ih =>
    intro s v h
    rcases h with h | ⟨items, rfl, h⟩ | ⟨members, rfl, h⟩
    · exact h.writable (d + 1)
    · exact Writer.writable_array.mpr (h.forall_mem fun _ _ hv => ih hv)
    · refine Writer.writable_object.mpr (h.forall_mem fun _ _ hm => ?_)
      cases hm with
      | mk hKey _ _ hValue => exact ⟨hKey.utf8_text, ih hValue⟩

/-- Whatever is parsed under a limit is written under the same limit. -/
theorem write_isSome_of_parse {d : Nat} {t : Bytes} {v : JsonValue lib.Double}
    (h : parse lib d t = some v) : ∃ u, write lib d v = some u := by
  cases parse_sound h with
  | mk _ hValue _ =>
    exact Option.isSome_iff_exists.mp
      ((Writer.writeValue_isSome_iff d v 0 (Nat.zero_le d)).mpr hValue.writable)

/-- **Re-serialising parsed JSON is canonical.** A value that was parsed is written, under
the same depth limit; the text that is written is parsed to the same value; and writing
what was parsed from it gives the same text again. -/
theorem reserialise_canonical (lib : DoubleChars) (d : Nat) (t : Bytes) (v : JsonValue lib.Double)
    (h : parse lib d t = some v) :
    ∃ u, write lib d v = some u ∧ parse lib d u = some v ∧
      ∀ v', parse lib d u = some v' → v' = v ∧ write lib d v' = some u := by
  obtain ⟨u, hu⟩ := write_isSome_of_parse h
  have hParse := parse_write hu
  refine ⟨u, hu, hParse, fun v' hv' => ?_⟩
  obtain rfl : v = v' := Option.some.inj (hParse.symm.trans hv')
  exact ⟨rfl, hu⟩

/-- ` [ -0 ,"\u0041"]` at the depth limit: the integer loses its sign, and the escape
is not kept. -/
theorem reserialise_canonical_array :
    parse Writer.wholeNumbers 1
        [0x20, 0x5B, 0x20, 0x2D, 0x30, 0x20, 0x2C, 0x22, 0x5C, 0x75, 0x30, 0x30, 0x34, 0x31, 0x22,
          0x5D] = some (.array [.integer 0, .string [0x41]]) ∧
      ∃ u, write Writer.wholeNumbers 1 (.array [.integer 0, .string [0x41]]) = some u ∧
        parse Writer.wholeNumbers 1 u = some (.array [.integer 0, .string [0x41]]) ∧
        ∀ v', parse Writer.wholeNumbers 1 u = some v' →
          v' = .array [.integer 0, .string [0x41]] ∧ write Writer.wholeNumbers 1 v' = some u := by
  have hParse : parse Writer.wholeNumbers 1
      [0x20, 0x5B, 0x20, 0x2D, 0x30, 0x20, 0x2C, 0x22, 0x5C, 0x75, 0x30, 0x30, 0x34, 0x31, 0x22,
        0x5D] = some (.array [.integer 0, .string [0x41]]) := rfl
  exact ⟨hParse, reserialise_canonical Writer.wholeNumbers 1 _ _ hParse⟩

end ReactorNet.Json
