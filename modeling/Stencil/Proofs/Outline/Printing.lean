import Mathlib.Data.Bool.AllAny
import Stencil.CommandLine.Run
import Stencil.Proofs.Outline.Wire

/-!
# Printed outlines

An outline is printed on one line or on several, and by itself or as the only member of an object.
In all four forms the text is JSON, whatever the outline holds, and once the wrapping is taken off
again it is read as the outline, by every reader that allows as many open brackets as the outline
has inside each other (`exists_readsWithin_printed`).

What is printed has the members of every object in the order of their keys already, and a reader
puts them in that order once more. Both are a change of order in which no member is lost, since no
key is there twice (`Rearranges.sorted`).
-/

set_option autoImplicit false
set_option relaxedAutoImplicit false

namespace Stencil.Outline

/-! ### Members in order -/

/-- That members stand in the order of their keys, and no key twice. -/
def InOrder (members : List (String × Value)) : Prop :=
  (members.map Prod.fst).Pairwise (· < ·)

theorem lt_of_not_lt {first second : String} (hless : ¬ first < second) (hne : first ≠ second) :
    second < first := by
  by_contra hother
  exact hne (String.le_antisymm (String.not_lt.mp hother) (String.not_lt.mp hless))

theorem InOrder.nodup {members : List (String × Value)} (hmembers : InOrder members) :
    (members.map Prod.fst).Nodup := by
  refine List.Pairwise.imp (fun hless ↦ ?_) hmembers
  rintro rfl
  exact String.lt_irrefl _ hless

/-- A member that is put among others is there, next to some of them. -/
theorem mem_insertMember {name : String} {value : Value} {members : List (String × Value)}
    {member : String × Value} (hmember : member ∈ Value.insertMember name value members) :
    member = (name, value) ∨ member ∈ members := by
  induction members with
  | nil => exact .inl (List.mem_singleton.mp hmember)
  | cons first rest ih =>
    obtain ⟨other, item⟩ := first
    rw [Value.insertMember] at hmember
    split_ifs at hmember with hless hsame
    · exact List.mem_cons.mp hmember
    · exact (List.mem_cons.mp hmember).imp_right (List.mem_cons_of_mem _)
    · rcases List.mem_cons.mp hmember with rfl | hmember
      · exact .inr List.mem_cons_self
      · exact (ih hmember).imp_right (List.mem_cons_of_mem _)

theorem InOrder.insertMember {members : List (String × Value)} (hmembers : InOrder members)
    (name : String) (value : Value) : InOrder (Value.insertMember name value members) := by
  induction members with
  | nil => exact List.pairwise_singleton _ _
  | cons first rest ih =>
    obtain ⟨other, item⟩ := first
    obtain ⟨hfirst, hrest⟩ := List.pairwise_cons.mp hmembers
    rw [Value.insertMember]
    split_ifs with hless hsame
    · refine List.pairwise_cons.mpr ⟨?_, hmembers⟩
      exact List.forall_mem_cons.mpr ⟨hless, fun key hkey ↦ String.lt_trans hless (hfirst key hkey)⟩
    · subst hsame
      exact hmembers
    · refine List.pairwise_cons.mpr ⟨fun key hkey ↦ ?_, ih hrest⟩
      obtain ⟨member, hmember, rfl⟩ := List.mem_map.mp hkey
      rcases mem_insertMember hmember with rfl | hmember
      · exact lt_of_not_lt hless hsame
      · exact hfirst _ (List.mem_map_of_mem hmember)

/-- The members of an object come from those that it is made of, and stand in order. -/
theorem exists_ofMembers (members : List (String × Value)) :
    ∃ others, Value.ofMembers members = .object others ∧ InOrder others ∧
      ∀ member ∈ others, member ∈ members := by
  suffices hfold : ∀ done : List (String × Value), InOrder done →
      InOrder (members.foldl (fun sorted member ↦
        Value.insertMember member.1 member.2 sorted) done) ∧
      ∀ member ∈ members.foldl (fun sorted member ↦
        Value.insertMember member.1 member.2 sorted) done, member ∈ done ∨ member ∈ members by
    obtain ⟨horder, hmem⟩ := hfold [] List.Pairwise.nil
    exact ⟨_, rfl, horder, fun member hmember ↦ (hmem member hmember).resolve_left (by simp)⟩
  induction members with
  | nil => exact fun done hdone ↦ ⟨hdone, fun member hmember ↦ .inl hmember⟩
  | cons first rest ih =>
    intro done hdone
    obtain ⟨horder, hmem⟩ := ih _ (hdone.insertMember first.1 first.2)
    refine ⟨horder, fun member hmember ↦ ?_⟩
    rcases hmem member hmember with hmember | hmember
    · rcases mem_insertMember hmember with rfl | hmember
      · exact .inr List.mem_cons_self
      · exact .inl hmember
    · exact .inr (List.mem_cons_of_mem _ hmember)

theorem exists_of_mem_sortedMembers {members : List (String × Value)} {member : String × Value}
    (hmember : member ∈ Value.sortedMembers members) :
    ∃ other ∈ members, member = (other.1, other.2.sorted) := by
  induction members with
  | nil => cases hmember
  | cons first rest ih =>
    obtain ⟨name, value⟩ := first
    rcases List.mem_cons.mp hmember with rfl | hmember
    · exact ⟨_, List.mem_cons_self, rfl⟩
    · obtain ⟨other, hother, hsame⟩ := ih hmember
      exact ⟨other, List.mem_cons_of_mem _ hother, hsame⟩

/-- A value that is read back is read back with its members in order as well. -/
theorem isWhole_sorted {value : Value} (hvalue : Json.IsWhole value) :
    Json.IsWhole value.sorted := by
  induction hvalue with
  | null => exact .null
  | bool value => exact .bool value
  | int hword => exact .int hword
  | string text => exact .string text
  | array _ ih =>
    rw [Value.sorted, sortedItems_eq_map]
    exact .array (List.forall_mem_map.mpr ih)
  | @object members _ ih =>
    obtain ⟨others, hothers, -, hmem⟩ := exists_ofMembers (Value.sortedMembers members)
    rw [Value.sorted, hothers]
    refine .object fun member hmember ↦ ?_
    obtain ⟨other, hother, rfl⟩ := exists_of_mem_sortedMembers (hmem member hmember)
    exact ih other hother

/-- Members may be put in order after any other change of order. -/
theorem Rearranges.sorted : Rearranges fun value ↦ value.sorted.sorted where
  bool _ := rfl
  int _ := rfl
  string _ := rfl
  array items := by
    rw [rearranges_sorted.array, rearranges_sorted.array, List.map_map]
    rfl
  object members hkeys := by
    obtain ⟨others, hothers, horder, -⟩ := exists_ofMembers (Value.sortedMembers members)
    have hsorted : (Value.object members).sorted = .object others := by rw [Value.sorted, hothers]
    obtain ⟨first, hfirst, hlookup⟩ := rearranges_sorted.object members hkeys
    obtain rfl : first = others := Value.object.inj (hfirst.symm.trans hsorted)
    obtain ⟨last, hlast, hlookup'⟩ := rearranges_sorted.object first
      horder.nodup
    refine ⟨last, by rw [hsorted, hlast], fun key ↦ ?_⟩
    rw [hlookup', hlookup, Option.map_map]
    rfl

/-! ### Printing -/

/-- What is wrapped by itself as a member of an object. -/
def unwrap? (isWrapped : Bool) (value : Value) : Option Value :=
  if isWrapped then value.member? "data" else some value

/-- How many brackets of a printed outline are open at a time at most. -/
def Tree.printedNesting (tree : Tree) (isWrapped : Bool) : Nat :=
  tree.toValue.sorted.nesting + isWrapped.toNat

/-- An outline with places of 64 bits is printed as JSON in every form, which is read as the outline
when the wrapping is taken off, as long as the reader allows so many brackets inside each other. -/
theorem exists_readsWithin_printed {tree : Tree} (hplaced : tree.Placed)
    (isWrapped isCompact : Bool) :
    ∃ value, Json.ReadsWithin (CommandLine.printed tree isWrapped isCompact)
        (tree.printedNesting isWrapped) value ∧
      (unwrap? isWrapped value).bind Tree.ofValue? = some tree := by
  have hwhole := isWhole_sorted (tree.isWhole_toValue hplaced)
  have hdecode := tree.ofValue?_rearrange Rearranges.sorted hplaced
  -- Both layouts end with a line end, which is blank.
  have hread (value : Value) (hvalue : Json.IsWhole value) :
      Json.ReadsWithin ((if isCompact then Json.compact value else Json.pretty 0 value) ++ "\n")
        value.nesting value.sorted := by
    have hblank : ∀ c ∈ ['\n'], Json.isBlank c = true :=
      List.all_iff_forall_prop.mp (by decide)
    cases isCompact with
    | true =>
      have hreads := Json.Layout.tight.readsWithin_write hvalue 0 hblank
      rw [← Json.toList_compact, String.ofList_append, String.ofList_toList] at hreads
      exact hreads
    | false =>
      have hreads := Json.Layout.spread.readsWithin_write hvalue 0 hblank
      rw [← Json.toList_pretty, String.ofList_append, String.ofList_toList] at hreads
      exact hreads
  cases isWrapped with
  | false => exact ⟨_, hread _ hwhole, hdecode⟩
  | true =>
    have hreads := hread (.object [("data", tree.toValue.sorted)])
      (.object (List.forall_mem_singleton.mpr hwhole))
    have hnesting : (Value.object [("data", tree.toValue.sorted)]).nesting =
        tree.printedNesting true := by
      simp only [Value.nesting, Value.nestingOfMembers, Nat.max_zero, Tree.printedNesting,
        Bool.toNat_true]
    rw [hnesting] at hreads
    exact ⟨_, hreads, hdecode⟩

/-- A printed outline with more brackets inside each other than a reader allows is refused. -/
theorem read_printed_of_lt {tree : Tree} (hplaced : tree.Placed) {most : Nat}
    (hdeep : most < tree.printedNesting false) (isWrapped isCompact : Bool) :
    ∃ place, Json.read (some most) (CommandLine.printed tree isWrapped isCompact) =
      .error ⟨.tooDeep, place⟩ := by
  obtain ⟨value, hreads, -⟩ := exists_readsWithin_printed hplaced isWrapped isCompact
  refine (hreads (some most)).2 fun hallowed ↦ ?_
  have hwithin := Json.allows_some_iff.mp hallowed
  have hmore : tree.printedNesting false ≤ tree.printedNesting isWrapped :=
    Nat.add_le_add_left (Nat.zero_le _) _
  omega

end Stencil.Outline
