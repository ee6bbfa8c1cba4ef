import AlLanguage.Analysis.BreakingChanges

/-!
# Surfaces

- What the check of a surface refuses, as facts about its names and numbers.
- What a map that is collected from pairs holds, and the controls below a page.
-/

namespace AlLanguage.Analysis

open Library AlLanguage.Symbols
open AlLanguage.Runtime (CaseMapping toLowercase toAsciiLowercase eqIgnoreAsciiCase)

/-! ## Names -/

theorem toUpper_toLower (c : Char) : c.toLower.toUpper = c.toUpper ∧ c.toUpper.toLower = c.toLower := by
  by_cases small : c.toNat < 128
  · have each : ∀ n < 128, (Char.ofNat n).toLower.toUpper = (Char.ofNat n).toUpper ∧
        (Char.ofNat n).toUpper.toLower = (Char.ofNat n).toLower := by decide +kernel
    have here := each c.toNat small
    rwa [Char.ofNat_toNat] at here
  · have lower : c.toLower = c := by
      apply dif_neg
      rintro ⟨_, high⟩
      exact small (Nat.lt_of_le_of_lt (UInt32.le_iff_toNat_le.mp high) (by decide))
    have upper : c.toUpper = c := by
      apply dif_neg
      rintro ⟨_, high⟩
      exact small (Nat.lt_of_le_of_lt (UInt32.le_iff_toNat_le.mp high) (by decide))
    rw [lower, upper]
    exact ⟨rfl, lower⟩

/-- Both folds of ASCII letters tell the same names apart. -/
theorem eqIgnoreAsciiCase_iff (a b : String) : eqIgnoreAsciiCase a b = true ↔ toAsciiLowercase a = toAsciiLowercase b := by
  rw [eqIgnoreAsciiCase, beq_iff_eq, Runtime.toAsciiUppercase, Runtime.toAsciiUppercase, toAsciiLowercase, toAsciiLowercase,
    String.ofList_inj, String.ofList_inj]
  constructor
  · intro same
    have lower := congrArg (List.map Char.toLower) same
    rw [List.map_map, List.map_map] at lower
    simpa only [Function.comp_def, (toUpper_toLower _).2] using lower
  · intro same
    have upper := congrArg (List.map Char.toUpper) same
    rw [List.map_map, List.map_map] at upper
    simpa only [Function.comp_def, (toUpper_toLower _).1] using upper

def kinds : List ObjectKind :=
  [.table, .tableExtension, .page, .pageExtension, .codeunit, .report, .reportExtension, .xmlPort, .query, .enum, .enumExtension,
    .interface, .permissionSet, .permissionSetExtension, .profile, .pageCustomization, .controlAddIn, .entitlement,
    .profileExtension, .dotNet]

theorem displayKind_injective {a b : ObjectKind} (same : toAsciiLowercase (displayKind a) = toAsciiLowercase (displayKind b)) :
    a = b := by
  have back (kind : ObjectKind) :
      (kinds.find? fun other => toAsciiLowercase (displayKind other) = toAsciiLowercase (displayKind kind)) = some kind := by
    cases kind <;> decide +kernel
  have left := back a
  rw [same, back b] at left
  exact (Option.some.inj left).symm

theorem identity_iff (a b : SymbolEntry) : identity a = identity b ↔
    a.kind = b.kind ∧ eqIgnoreAsciiCase a.namespace_ b.namespace_ = true ∧ eqIgnoreAsciiCase a.name b.name = true := by
  rw [eqIgnoreAsciiCase_iff, eqIgnoreAsciiCase_iff, identity, identity]
  simp only [List.cons.injEq, and_true]
  constructor
  · rintro ⟨kind, rest⟩
    exact ⟨displayKind_injective kind, rest⟩
  · rintro ⟨kind, rest⟩
    exact ⟨by rw [kind], rest⟩

/-! ## Loops that refuse what is repeated -/

section Repeated

variable {α κ : Type} [DecidableEq κ]

theorem refuseKeys_iff (seen seen' : List κ) (found : List (κ × String)) :
    refuseRepeated.refuseKeys seen found = .ok seen' ↔
      (found.map Prod.fst).Nodup ∧ (∀ k ∈ found.map Prod.fst, k ∉ seen) ∧ seen' = (found.map Prod.fst).reverse ++ seen := by
  induction found generalizing seen with
  | nil => simp [refuseRepeated.refuseKeys, eq_comm]
  | cons pair rest ih =>
      rw [refuseRepeated.refuseKeys]
      split
      next old => simp [old]
      next fresh =>
        rw [ih, List.map_cons, List.nodup_cons, List.forall_mem_cons, List.reverse_cons, List.append_assoc]
        constructor
        · rintro ⟨apart, unseen, rfl⟩
          refine ⟨⟨?_, apart⟩, ⟨fresh, ?_⟩, rfl⟩
          · intro again
            exact unseen pair.1 again List.mem_cons_self
          · intro k inside old
            exact unseen k inside (List.mem_cons_of_mem _ old)
        · rintro ⟨⟨once, apart⟩, ⟨_, unseen⟩, rfl⟩
          refine ⟨apart, ?_, rfl⟩
          intro k inside old
          rcases List.mem_cons.mp old with rfl | earlier
          · exact once inside
          · exact unseen k inside earlier

/-- The keys of an item that its own checks accept. -/
def foundKeys (keys : α → Except String (List (κ × String))) (item : α) : List κ :=
  match keys item with
  | .ok found => found.map Prod.fst
  | .error _ => []

theorem refuseRepeated_iff (keys : α → Except String (List (κ × String))) (seen : List κ) (items : List α) :
    refuseRepeated keys seen items = .ok () ↔ (∀ item ∈ items, ∃ found, keys item = .ok found) ∧
      (items.flatMap (foundKeys keys)).Nodup ∧ ∀ k ∈ items.flatMap (foundKeys keys), k ∉ seen := by
  induction items generalizing seen with
  | nil => simp [refuseRepeated]
  | cons item rest ih =>
      rw [refuseRepeated, List.forall_mem_cons, List.flatMap_cons]
      cases checked : keys item with
      | error e => simp
      | ok found =>
          have here : foundKeys keys item = found.map Prod.fst := by rw [foundKeys, checked]
          rw [here]
          dsimp only
          cases refused : refuseRepeated.refuseKeys seen found with
          | error e =>
              apply iff_of_false nofun
              rintro ⟨_, apart, unseen⟩
              have accepted := (refuseKeys_iff seen _ found).mpr
                ⟨(List.nodup_append.mp apart).1, fun k inside => unseen k (List.mem_append_left _ inside), rfl⟩
              rw [refused] at accepted
              cases accepted
          | ok seen' =>
              obtain ⟨once, unseen, rfl⟩ := (refuseKeys_iff seen seen' found).mp refused
              rw [ih]
              constructor
              · rintro ⟨rest, apart, later⟩
                refine ⟨⟨⟨found, rfl⟩, rest⟩, ?_, ?_⟩
                · rw [List.nodup_append]
                  refine ⟨once, apart, ?_⟩
                  rintro a inside b behind rfl
                  exact later a behind (List.mem_append_left _ (List.mem_reverse.mpr inside))
                · intro k inside
                  rcases List.mem_append.mp inside with first | second
                  · exact unseen k first
                  · exact fun old => later k second (List.mem_append_right _ old)
              · rintro ⟨⟨_, rest⟩, apart, unseen⟩
                obtain ⟨_, second, between⟩ := List.nodup_append.mp apart
                refine ⟨rest, second, ?_⟩
                intro k inside old
                rcases List.mem_append.mp old with here | earlier
                · exact between k (List.mem_reverse.mp here) k inside rfl
                · exact unseen k (List.mem_append_right _ inside) earlier

/-- With one key for each item that needs no other check. -/
theorem refuseRepeated_single (key : α → κ) (message : α → String) (items : List α) :
    refuseRepeated (fun item => .ok [(key item, message item)]) [] items = .ok () ↔ (items.map key).Nodup := by
  rw [refuseRepeated_iff]
  have keys : items.flatMap (foundKeys fun item => .ok [(key item, message item)]) = items.map key := by
    rw [List.map_eq_flatMap]
    rfl
  rw [keys]
  constructor
  · exact fun all => all.2.1
  · exact fun apart => ⟨fun item _ => ⟨_, rfl⟩, apart, nofun⟩

end Repeated

/-- With a name and a number for each item, both are told apart. -/
theorem refuseRepeated_named {α : Type} (name : α → String) (number : α → Int32) (nameMessage numberMessage : α → String)
    (items : List α) :
    refuseRepeated (fun item => .ok [(NameOrNumber.name (name item), nameMessage item), (.number (number item), numberMessage item)])
        [] items = .ok () ↔ (items.map name).Nodup ∧ (items.map number).Nodup := by
  rw [refuseRepeated_iff]
  generalize keys : foundKeys (fun item => .ok
    [(NameOrNumber.name (name item), nameMessage item), (.number (number item), numberMessage item)]) = found
  have each (item : α) : found item = [.name (name item), .number (number item)] := by rw [← keys]; rfl
  have pairs : (items.map name).Nodup ∧ (items.map number).Nodup ↔
      items.Pairwise fun a b => name a ≠ name b ∧ number a ≠ number b := by
    rw [List.Nodup, List.Nodup, List.pairwise_map, List.pairwise_map, List.pairwise_and_iff]
  rw [pairs, List.nodup_flatMap]
  constructor
  · rintro ⟨_, ⟨_, apart⟩, _⟩
    apply apart.imp
    intro a b disjoint
    rw [Function.onFun, each, each] at disjoint
    constructor
    · intro same
      exact disjoint (by simp) (by simp [same] : NameOrNumber.name (name a) ∈ _)
    · intro same
      exact disjoint (by simp) (by simp [same] : NameOrNumber.number (number a) ∈ _)
  · intro apart
    refine ⟨fun item _ => ⟨_, rfl⟩, ⟨?_, ?_⟩, fun _ _ => List.not_mem_nil⟩
    · intro item _
      rw [each]
      simp
    · apply apart.imp
      rintro a b ⟨names, numbers⟩
      rw [Function.onFun, each, each]
      simp [names.symm, numbers.symm]

/-! ## Unique surfaces -/

def publicMethods (entry : SymbolEntry) : List MethodSymbol := entry.methods.filter fun method => !method.isLocal

/-- The objects that the surface publishes. -/
def published (entries : List SymbolEntry) : List SymbolEntry := entries.filter fun entry => !entry.synthetic

def target (permission : PermissionSymbol) : Int32 × Int32 := (permission.permissionObject, permission.objectId)

structure UniqueEntry (entry : SymbolEntry) : Prop where
  fieldNames : (entry.fields.map fun field => toAsciiLowercase field.name).Nodup
  fieldIds : (entry.fields.map FieldSymbol.id).Nodup
  contracts : ((publicMethods entry).map fun method => (toAsciiLowercase method.name, contract method)).Nodup
  valueNames : (entry.enumValues.map fun value => toAsciiLowercase value.name).Nodup
  ordinals : (entry.enumValues.map EnumValueSymbol.ordinal).Nodup
  targets : (entry.permissions.map target).Nodup
  masks : ∀ permission ∈ entry.permissions,
    permission.permissionObject ∈ [0, 1, 3, 5, 6, 8, 9, 10] ∧ ¬(permission.value < 0 ∨ 1023 < permission.value)

structure UniqueSurface (entries : List SymbolEntry) : Prop where
  identities : ((published entries).map identity).Nodup
  entries : ∀ entry ∈ published entries, UniqueEntry entry

theorem bind_ok_iff (first : Except String Unit) (second : Except String Unit) :
    (first >>= fun _ => second) = .ok () ↔ first = .ok () ∧ second = .ok () := by
  cases first with
  | error e => exact iff_of_false nofun fun both => nomatch both.1
  | ok _ => exact ⟨fun result => ⟨rfl, result⟩, fun both => both.2⟩

theorem refusePermissions_iff (code mask repeated : PermissionSymbol → String) (permissions : List PermissionSymbol) :
    refuseRepeated (fun permission : PermissionSymbol =>
      if permission.permissionObject ∉ [0, 1, 3, 5, 6, 8, 9, 10] then .error (code permission)
      else if permission.value < 0 ∨ 1023 < permission.value then .error (mask permission)
      else .ok [((permission.permissionObject, permission.objectId), repeated permission)]) [] permissions = .ok () ↔
    (permissions.map target).Nodup ∧ ∀ permission ∈ permissions,
      permission.permissionObject ∈ [0, 1, 3, 5, 6, 8, 9, 10] ∧ ¬(permission.value < 0 ∨ 1023 < permission.value) := by
  generalize is : (fun permission : PermissionSymbol => _) = keys
  have each (permission : PermissionSymbol) : (∃ found, keys permission = .ok found) ↔
      permission.permissionObject ∈ [0, 1, 3, 5, 6, 8, 9, 10] ∧ ¬(permission.value < 0 ∨ 1023 < permission.value) := by
    rw [← is]
    dsimp only
    split
    next unknown => simp [unknown]
    next known =>
      split
      next wide => simp [wide]
      next fits => exact iff_of_true ⟨_, rfl⟩ ⟨not_not.mp known, fits⟩
  have found {permission : PermissionSymbol} (accepted : ∃ found, keys permission = .ok found) :
      foundKeys keys permission = [target permission] := by
    obtain ⟨known, fits⟩ := (each permission).mp accepted
    rw [foundKeys, ← is]
    dsimp only
    rw [if_neg (not_not.mpr known), if_neg fits]
    rfl
  rw [refuseRepeated_iff]
  have flat (accepted : ∀ permission ∈ permissions, ∃ found, keys permission = .ok found) :
      permissions.flatMap (foundKeys keys) = permissions.map target := by
    rw [List.map_eq_flatMap]
    exact List.flatMap_congr fun permission inside => found (accepted permission inside)
  constructor
  · rintro ⟨accepted, apart, _⟩
    rw [flat accepted] at apart
    exact ⟨apart, fun permission inside => (each permission).mp (accepted permission inside)⟩
  · rintro ⟨apart, checks⟩
    have accepted : ∀ permission ∈ permissions, ∃ found, keys permission = .ok found :=
      fun permission inside => (each permission).mpr (checks permission inside)
    rw [flat accepted]
    exact ⟨accepted, apart, fun _ _ => List.not_mem_nil⟩

theorem validateEntrySurface_iff (label : String) (entry : SymbolEntry) :
    validateEntrySurface label entry = .ok () ↔ UniqueEntry entry := by
  rw [validateEntrySurface, bind_ok_iff, bind_ok_iff, bind_ok_iff, refuseRepeated_named, refuseRepeated_named,
    refuseRepeated_single, refusePermissions_iff]
  constructor
  · rintro ⟨⟨fieldNames, fieldIds⟩, contracts, ⟨valueNames, ordinals⟩, targets, masks⟩
    exact ⟨fieldNames, fieldIds, contracts, valueNames, ordinals, targets, masks⟩
  · intro unique
    exact ⟨⟨unique.fieldNames, unique.fieldIds⟩, unique.contracts, ⟨unique.valueNames, unique.ordinals⟩, unique.targets, unique.masks⟩

theorem validateObjects_iff (label : String) (seen : List Identity) (entries : List SymbolEntry) :
    validateObjects label seen entries = .ok () ↔
      (entries.map identity).Nodup ∧ (∀ entry ∈ entries, identity entry ∉ seen) ∧ ∀ entry ∈ entries, UniqueEntry entry := by
  induction entries generalizing seen with
  | nil => simp [validateObjects]
  | cons entry rest ih =>
      rw [validateObjects, List.map_cons, List.nodup_cons, List.forall_mem_cons, List.forall_mem_cons]
      split
      next old => exact iff_of_false nofun fun all => all.2.1.1 old
      next fresh =>
        have checked := validateEntrySurface_iff label entry
        split
        next e failed =>
          rw [failed] at checked
          exact iff_of_false nofun fun all => nomatch checked.mpr all.2.2.1
        next passed =>
          rw [ih, ← checked, passed]
          constructor
          · rintro ⟨apart, unseen, unique⟩
            refine ⟨⟨?_, apart⟩, ⟨fresh, ?_⟩, rfl, unique⟩
            · intro again
              obtain ⟨other, inside, same⟩ := List.mem_map.mp again
              exact unseen other inside (same ▸ List.mem_cons_self)
            · exact fun other inside old => unseen other inside (List.mem_cons_of_mem _ old)
          · rintro ⟨⟨once, apart⟩, ⟨_, unseen⟩, _, unique⟩
            refine ⟨apart, ?_, unique⟩
            intro other inside old
            rcases List.mem_cons.mp old with same | earlier
            · exact once (same ▸ List.mem_map_of_mem inside)
            · exact unseen other inside earlier

/-- The check accepts exactly the surfaces that name everything once. -/
theorem validateUniqueSurface_iff (label : String) (entries : List SymbolEntry) :
    validateUniqueSurface label entries = .ok () ↔ UniqueSurface entries := by
  rw [validateUniqueSurface, validateObjects_iff]
  constructor
  · rintro ⟨identities, _, unique⟩
    exact ⟨identities, unique⟩
  · intro unique
    exact ⟨unique.identities, fun _ _ => List.not_mem_nil, unique.entries⟩

/-! ## Collected maps -/

section Collected

variable {κ ν : Type} [Ord κ] [Std.TransOrd κ] [Std.LawfulEqOrd κ] {pairs : List (κ × ν)} {k : κ} {v : ν}

omit [Std.LawfulEqOrd κ] in
theorem collectMap_append (pairs : List (κ × ν)) (pair : κ × ν) :
    collectMap (pairs ++ [pair]) = (collectMap pairs).insert pair.1 pair.2 := by
  rw [collectMap, List.foldl_append]
  rfl

theorem get?_insert_iff (m : OrderedMap κ ν) (k' : κ) (v' : ν) :
    (m.insert k' v').get? k = some v ↔ k' = k ∧ v' = v ∨ k' ≠ k ∧ m.get? k = some v := by
  rw [OrderedMap.get?_insert]
  by_cases same : k' = k
  · subst same
    simp
  · rw [if_neg (Std.LawfulEqCmp.compare_eq_iff_eq.not.mpr same)]
    simp [same]

theorem mem_of_collected (found : (collectMap pairs).get? k = some v) : (k, v) ∈ pairs := by
  induction pairs using List.reverseRecOn with
  | nil => cases found
  | append_singleton pairs pair ih =>
      rw [collectMap_append, get?_insert_iff] at found
      rcases found with ⟨rfl, rfl⟩ | ⟨_, earlier⟩
      · exact List.mem_append_right _ (List.mem_singleton_self _)
      · exact List.mem_append_left _ (ih earlier)

theorem collected_of_mem (inside : k ∈ pairs.map Prod.fst) : ∃ v, (collectMap pairs).get? k = some v := by
  induction pairs using List.reverseRecOn with
  | nil => cases inside
  | append_singleton pairs pair ih =>
      by_cases same : pair.1 = k
      · refine ⟨pair.2, ?_⟩
        rw [collectMap_append, get?_insert_iff]
        exact .inl ⟨same, rfl⟩
      · rw [List.map_append] at inside
        have earlier := (List.mem_append.mp inside).resolve_right (by simpa using Ne.symm same)
        obtain ⟨v, found⟩ := ih earlier
        refine ⟨v, ?_⟩
        rw [collectMap_append, get?_insert_iff]
        exact .inr ⟨same, found⟩

/-- A map of distinct keys holds every pair. -/
theorem get?_collectMap (apart : (pairs.map Prod.fst).Nodup) : (collectMap pairs).get? k = some v ↔ (k, v) ∈ pairs := by
  constructor
  · exact mem_of_collected
  · intro inside
    obtain ⟨v', found⟩ := collected_of_mem (List.mem_map_of_mem inside)
    have other := mem_of_collected found
    have same := List.inj_on_of_nodup_map apart inside other rfl
    rwa [(Prod.mk.inj same).2]

theorem mem_entries_iff (m : OrderedMap κ ν) : (k, v) ∈ m.entries ↔ m.get? k = some v := by
  constructor
  · exact m.get?_of_mem
  · intro found
    obtain ⟨k', inside, same⟩ := (m.get?_eq_some_iff k v).mp found
    rwa [Std.LawfulEqCmp.eq_of_compare same]

end Collected

theorem contains_iff_mem_entries {κ ν : Type} [Ord κ] [Std.TransOrd κ] [Std.LawfulEqOrd κ] (m : OrderedMap κ ν) (k : κ) :
    m.contains k = true ↔ ∃ v, (k, v) ∈ m.entries := by
  rw [OrderedMap.contains_iff]
  exact exists_congr fun v => (mem_entries_iff m).symm

/-! ## Controls -/

theorem allControls_cons (control : ControlSymbol) (rest : List ControlSymbol) :
    allControls (control :: rest) = control :: (allControls control.children ++ allControls rest) := by
  cases control
  rfl

theorem allControls_append (front back : List ControlSymbol) : allControls (front ++ back) = allControls front ++ allControls back := by
  induction front with
  | nil => rfl
  | cons control front ih =>
      rw [List.cons_append, allControls_cons, allControls_cons, ih, List.cons_append, List.append_assoc]

theorem allControls_reverse (controls : List ControlSymbol) : (allControls controls.reverse).Perm (allControls controls) := by
  induction controls with
  | nil => exact .refl _
  | cons control rest ih =>
      rw [List.reverse_cons, allControls_append, allControls_cons control [], allControls_cons]
      have empty : allControls [] = [] := rfl
      rw [empty, List.append_nil]
      exact (List.perm_append_comm).trans ((ih.append_left _).cons control)

/-- A control that has a name, under the name that is looked up. -/
def Named (name : String) (control : ControlSymbol) : Prop := Runtime.trim control.name ≠ "" ∧ normalizeName control.name = name

theorem contains_controlNamesLoop {turns : Nat} {names : OrderedMap String String} {stack : List ControlSymbol} {name : String}
    (enough : (allControls stack).length ≤ turns) :
    (controlNamesLoop turns names stack).contains name = true ↔
      names.contains name = true ∨ ∃ control ∈ allControls stack, Named name control := by
  induction turns generalizing names stack with
  | zero =>
      have none : allControls stack = [] := List.length_eq_zero_iff.mp (Nat.le_zero.mp enough)
      rw [none, controlNamesLoop]
      simp
  | succ turns ih =>
      cases stack with
      | nil => simp [controlNamesLoop, allControls]
      | cons control stack =>
          have order := (allControls_reverse control.children).append_right (allControls stack)
          have fits : (allControls (control.children.reverse ++ stack)).length ≤ turns := by
            rw [allControls_append, order.length_eq]
            rw [allControls_cons, List.length_cons] at enough
            exact Nat.le_of_succ_le_succ enough
          rw [controlNamesLoop, ih fits, allControls_append, allControls_cons]
          have below : (∃ other ∈ allControls control.children.reverse ++ allControls stack, Named name other) ↔
              ∃ other ∈ allControls control.children ++ allControls stack, Named name other :=
            exists_congr fun other => and_congr_left fun _ => order.mem_iff
          have here : (if Runtime.trim control.name = "" then names
              else names.insert (normalizeName control.name) control.name).contains name = true ↔
                names.contains name = true ∨ Named name control := by
            rw [Named]
            split
            next blank => simp [blank]
            next filled =>
              rw [OrderedMap.contains_iff, OrderedMap.contains_iff]
              simp only [get?_insert_iff]
              by_cases same : normalizeName control.name = name
              · simp [same, filled]
              · simp [same]
          rw [below, here, or_assoc]
          simp

theorem contains_controlNames (controls : List ControlSymbol) (name : String) :
    (controlNames controls).contains name = true ↔ ∃ control ∈ allControls controls, Named name control := by
  have order := allControls_reverse controls
  have empty : (OrderedMap.empty : OrderedMap String String).contains name = false := rfl
  rw [controlNames, contains_controlNamesLoop (by rw [order.length_eq]), empty]
  simp only [Bool.false_eq_true, false_or, order.mem_iff]

end AlLanguage.Analysis
