import AlLanguage.Xliff.Format

/-!
# Escaped texts

- Escaping codes every character on its own, and unescaping undoes it entity by entity.
- An escaped text has no angle bracket and no double quote. Its lines, its white space and its end are those of the
  text.
-/

namespace AlLanguage.Xliff

open Library.Substrings

/-- The characters that are escaped, in the order in which they are read back. -/
def entities : List (Char × String) :=
  [('<', "&lt;"), ('>', "&gt;"), ('"', "&quot;"), (Char.ofNat 39, "&apos;"), ('&', "&amp;")]

/-- The code of a character while `pending` is escaped. -/
def encode (pending : List (Char × String)) (c : Char) : Text := ((pending.lookup c).map String.toList).getD [c]

theorem encode_cons (c d : Char) (entity : String) (pending : List (Char × String)) :
    encode ((d, entity) :: pending) c = if c = d then entity.toList else encode pending c := by
  unfold encode
  rw [List.lookup_cons]
  by_cases same : c = d
  · simp [same]
  · simp [same, beq_false_of_ne same]

@[simp] theorem encode_nil (c : Char) : encode [] c = [c] := rfl

theorem encode_entities (c : Char) :
    encode entities c = if c = '<' then "&lt;".toList else if c = '>' then "&gt;".toList else if c = '"' then "&quot;".toList
      else if c = Char.ofNat 39 then "&apos;".toList else if c = '&' then "&amp;".toList else [c] := by
  simp only [entities, encode_cons, encode_nil]

theorem xmlEscape_eq (s : Text) : xmlEscape s = s.flatMap (encode entities) := by
  unfold xmlEscape replaceChar
  simp only [List.flatMap_assoc]
  congr 1
  funext c
  rw [encode_entities]
  by_cases lt : c = '<'
  · subst lt; decide
  by_cases gt : c = '>'
  · subst gt; decide
  by_cases quot : c = '"'
  · subst quot; decide
  by_cases apos : c = Char.ofNat 39
  · subst apos; decide
  by_cases amp : c = '&'
  · subst amp; decide
  simp [lt, gt, quot, apos, amp]

/-- An ampersand and a name. -/
def Entity (body entity : Text) : Prop := entity = '&' :: body ∧ '&' ∉ body

/-- Two names of which neither begins with the other. -/
def Apart (body body' : Text) : Prop := ¬body <+: body' ∧ ¬body' <+: body

instance (body entity : Text) : Decidable (Entity body entity) := inferInstanceAs (Decidable (_ ∧ _))

instance (body body' : Text) : Decidable (Apart body body') := inferInstanceAs (Decidable (_ ∧ _))

theorem Apart.append {body body' : Text} (apart : Apart body body') (rest : Text) : ¬body <+: body' ++ rest := by
  intro starts
  rcases List.prefix_or_prefix_of_prefix starts (List.prefix_append body' rest) with first | second
  · exact apart.1 first
  · exact apart.2 second

/-- One replacement of the reader, while the ampersand is still escaped. -/
theorem replace_stage {c : Char} {entity into : String} {pending : List (Char × String)} (single : into.toList = [c])
    (named : Entity entity.toList.tail entity.toList) (fresh : pending.lookup c = none)
    (escaped : '&' = c ∨ pending.lookup '&' ≠ none)
    (others : ∀ entry ∈ pending, Entity entry.2.toList.tail entry.2.toList ∧ Apart entity.toList.tail entry.2.toList.tail)
    (s : Text) : replaceText entity into (s.flatMap (encode ((c, entity) :: pending))) = s.flatMap (encode pending) := by
  have each : ∀ d, Replaces '&' entity.toList.tail into.toList (encode ((c, entity) :: pending) d) (encode pending d) := by
    intro d
    rw [encode_cons]
    by_cases same : d = c
    · refine .inl ⟨by rw [if_pos same, ← named.1], ?_⟩
      rw [same, encode, fresh, single]
      rfl
    · rw [if_neg same]
      right
      cases held : pending.lookup d with
      | none =>
          refine .inl ⟨?_, rfl⟩
          rw [encode, held]
          intro member
          obtain rfl := List.mem_singleton.mp member
          exact escaped.elim same fun has => has held
      | some entity' =>
          obtain ⟨before, after, split, _⟩ := List.lookup_eq_some_iff.mp held
          obtain ⟨named', apart⟩ := others (d, entity') (split ▸ List.mem_append_right _ List.mem_cons_self)
          refine .inr ⟨entity'.toList.tail, ?_, named'.2, apart.append, rfl⟩
          rw [encode, held]
          exact named'.1
  rw [replaceText, named.1]
  exact replace_flatMap each s

theorem xmlUnescape_escape (s : Text) : xmlUnescape (xmlEscape s) = s := by
  rw [xmlEscape_eq, entities, xmlUnescape, replace_stage, replace_stage, replace_stage, replace_stage, replace_stage]
  · exact List.flatMap_singleton' s
  all_goals decide

/-! ## What an escaped text looks like -/

@[simp] theorem xmlEscape_nil : xmlEscape [] = [] := rfl

@[simp] theorem xmlEscape_append (s t : Text) : xmlEscape (s ++ t) = xmlEscape s ++ xmlEscape t := by
  simp only [xmlEscape_eq, List.flatMap_append]

/-- A character stands for itself, or an entity of the table does. -/
theorem encode_cases (c : Char) :
    encode entities c = [c] ∧ c ∉ entities.map (·.1) ∨ ∃ entry ∈ entities, entry.1 = c ∧ encode entities c = entry.2.toList := by
  unfold encode
  cases held : entities.lookup c with
  | none =>
      refine .inl ⟨rfl, ?_⟩
      intro member
      obtain ⟨entry, inside, rfl⟩ := List.mem_map.mp member
      have apart := List.lookup_eq_none_iff.mp held entry inside
      simp at apart
  | some entity =>
      obtain ⟨before, after, split, _⟩ := List.lookup_eq_some_iff.mp held
      exact .inr ⟨(c, entity), split ▸ List.mem_append_right _ List.mem_cons_self, rfl, rfl⟩

def entityChars : Text := entities.flatMap (·.2.toList)

theorem entity_last : ∀ entry ∈ entities, entry.2.toList.getLast? = some ';' := by decide

variable {s t : Text} {m : Char}

theorem mem_xmlEscape (member : m ∈ xmlEscape s) : m ∈ s ∧ m ∉ entities.map (·.1) ∨ m ∈ entityChars := by
  rw [xmlEscape_eq] at member
  obtain ⟨c, inside, here⟩ := List.mem_flatMap.mp member
  rcases encode_cases c with ⟨plain, apart⟩ | ⟨entry, listed, _, coded⟩
  · rw [plain] at here
    obtain rfl := List.mem_singleton.mp here
    exact .inl ⟨inside, apart⟩
  · rw [coded] at here
    exact .inr (List.mem_flatMap.mpr ⟨entry, listed, here⟩)

theorem not_mem_xmlEscape (special : m ∈ entities.map (·.1)) (outside : m ∉ entityChars) (s : Text) : m ∉ xmlEscape s := by
  intro member
  rcases mem_xmlEscape member with ⟨_, apart⟩ | inside
  · exact apart special
  · exact outside inside

theorem not_mem_xmlEscape_of_not_mem (outside : m ∉ entityChars) (missing : m ∉ s) : m ∉ xmlEscape s := by
  intro member
  rcases mem_xmlEscape member with ⟨here, _⟩ | inside
  · exact missing here
  · exact outside inside

theorem open_not_mem_xmlEscape (s : Text) : '<' ∉ xmlEscape s := not_mem_xmlEscape (by decide) (by decide) s

theorem close_not_mem_xmlEscape (s : Text) : '>' ∉ xmlEscape s := not_mem_xmlEscape (by decide) (by decide) s

theorem quote_not_mem_xmlEscape (s : Text) : '"' ∉ xmlEscape s := not_mem_xmlEscape (by decide) (by decide) s

theorem feed_not_mem_xmlEscape (missing : '\n' ∉ s) : '\n' ∉ xmlEscape s := not_mem_xmlEscape_of_not_mem (by decide) missing

theorem return_not_mem_xmlEscape (missing : '\r' ∉ s) : '\r' ∉ xmlEscape s := not_mem_xmlEscape_of_not_mem (by decide) missing

theorem xmlEscape_singleton (c : Char) : xmlEscape [c] = encode entities c := by
  rw [xmlEscape_eq]
  exact List.append_nil _

theorem encode_plain (plain : m ∉ entities.map (·.1)) : encode entities m = [m] := by
  rcases encode_cases m with ⟨same, _⟩ | ⟨entry, listed, rfl, _⟩
  · exact same
  · exact absurd (List.mem_map_of_mem listed) plain

/-- A character of a text is plain, or its code ends in a semicolon. -/
theorem getLast?_encode (c : Char) : encode entities c = [c] ∨ ∃ name, encode entities c = name ++ [';'] := by
  rcases encode_cases c with ⟨plain, _⟩ | ⟨entry, listed, _, coded⟩
  · exact .inl plain
  · obtain ⟨name, same⟩ := List.getLast?_eq_some_iff.mp (entity_last entry listed)
    exact .inr ⟨name, coded.trans same⟩

theorem whitespace_plain (blank : Runtime.isWhitespace m = true) : m ∉ entities.map (·.1) := by
  intro special
  have solid : ∀ entry ∈ entities, Runtime.isWhitespace entry.1 = false := by decide
  obtain ⟨entry, listed, rfl⟩ := List.mem_map.mp special
  rw [solid entry listed] at blank
  cases blank

/-- Blanks at the end of an escaped text are those of the text. -/
theorem trimEnd_xmlEscape (front s : Text) (solid : ∀ c, front.getLast? = some c → Runtime.isWhitespace c = false) :
    trimEnd (front ++ xmlEscape s) = front ++ xmlEscape (trimEnd s) := by
  unfold trimEnd
  induction s using List.reverseRecOn with
  | nil =>
      rw [List.rdropWhile_nil, xmlEscape_nil, List.append_nil]
      exact List.rdropWhile_eq_self_iff.mpr fun nonempty blank => by
        rw [solid _ (List.getLast?_eq_some_getLast nonempty)] at blank
        cases blank
  | append_singleton s c ih =>
      rw [xmlEscape_append, xmlEscape_singleton, ← List.append_assoc]
      by_cases blank : Runtime.isWhitespace c = true
      · rw [encode_plain (whitespace_plain blank), List.rdropWhile_concat_pos _ _ _ blank, ih,
          List.rdropWhile_concat_pos _ _ _ blank]
      · rw [List.rdropWhile_concat_neg _ _ _ blank, xmlEscape_append, xmlEscape_singleton, List.append_assoc]
        rcases getLast?_encode c with plain | ⟨name, same⟩
        · rw [plain, ← List.append_assoc, List.rdropWhile_concat_neg _ _ _ blank]
        · rw [same, ← List.append_assoc, ← List.append_assoc, List.rdropWhile_concat_neg _ _ _ (by decide)]

/-- A text of characters that no entity ends with is at the end of an escaped text when it is at the end of the text. -/
theorem suffix_xmlEscape (pattern s : Text) (plain : (pattern.all fun c => c ∉ entities.map (·.1) ∧ c ≠ ';') = true) :
    pattern <:+ xmlEscape s ↔ pattern <:+ s := by
  rw [List.all_eq_true] at plain
  simp only [decide_eq_true_iff] at plain
  induction pattern using List.reverseRecOn generalizing s with
  | nil => exact iff_of_true List.nil_suffix List.nil_suffix
  | append_singleton pattern c ih =>
      obtain ⟨own, ends⟩ := plain c (by simp)
      have rest : ∀ c ∈ pattern, c ∉ entities.map (·.1) ∧ c ≠ ';' := fun c inside => plain c (by simp [inside])
      cases s using List.reverseRecOn with
      | nil => exact Iff.rfl
      | append_singleton s d =>
          rw [xmlEscape_append, xmlEscape_singleton]
          rcases getLast?_encode d with same | ⟨name, same⟩
          · rw [same, concat_suffix_concat, concat_suffix_concat, ih s rest]
          · rw [same, ← List.append_assoc, concat_suffix_concat, concat_suffix_concat]
            refine iff_of_false (fun both => ends both.2) ?_
            rintro ⟨_, rfl⟩
            rw [encode_plain own] at same
            have last := congrArg List.getLast? same
            rw [List.getLast?_concat] at last
            exact ends (Option.some.inj last)

end AlLanguage.Xliff
