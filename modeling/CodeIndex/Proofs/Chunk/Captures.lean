import CodeIndex.Proofs.Chunk.Outline
import CodeIndex.Proofs.Store.Order
/-!
# Calls and types of chunks

What is captured in a tree goes to the innermost chunk around it and to no other. A chunk has each
name once, in the order of the captures; what is captured outside every chunk is left over, with
its row.
-/

namespace CodeIndex

open Text Syntax

namespace Outline

/-! ## The innermost chunk -/

theorem getElem?_zipIdx_eq {founds : List Found} {f : Found} {i k : Nat}
    (h : founds.zipIdx[k]? = some (f, i)) : founds[k]? = some f ∧ i = k := by
  rw [List.getElem?_zipIdx] at h
  obtain ⟨g, hg, heq⟩ := Option.map_eq_some_iff.1 h
  cases heq
  exact ⟨hg, Nat.zero_add k⟩

/-- The position of a node is that of its last entry. -/
theorem position?_eq_some {founds : List Found} {p : Syntax.Place} {i : Nat}
    (h : position? founds p = some i) :
    ∃ f, founds[i]? = some f ∧ f.place.address = p.address ∧
      ∀ j g, founds[j]? = some g → g.place.address = p.address → j ≤ i := by
  obtain ⟨⟨f, k⟩, hfind, rfl⟩ := Option.map_eq_some_iff.1 h
  rw [List.findRev?_eq_find?_reverse, List.find?_eq_some_iff_append] at hfind
  obtain ⟨hsame, later, earlier, hsplit, hlater⟩ := hfind
  have hzip : founds.zipIdx = earlier.reverse ++ (f, k) :: later.reverse := by
    rw [← List.reverse_reverse founds.zipIdx, hsplit]
    simp
  have hhere : founds.zipIdx[earlier.length]? = some (f, k) := by
    rw [hzip, ← List.length_reverse, List.getElem?_append_right (Nat.le_refl _), Nat.sub_self]
    rfl
  obtain ⟨hf, rfl⟩ := getElem?_zipIdx_eq hhere
  refine ⟨f, hf, beq_iff_eq.1 hsame, fun j g hg haddress => Nat.le_of_not_lt fun hlt => ?_⟩
  -- an entry further on is among those that were passed over
  have hbehind : (g, j) ∈ later.reverse := by
    have hentry : founds.zipIdx[j]? = some (g, j) := by
      rw [List.getElem?_zipIdx, hg, Nat.zero_add]
      rfl
    rw [hzip, List.getElem?_append_right (by rw [List.length_reverse]; omega),
      List.length_reverse] at hentry
    obtain ⟨d, hd⟩ : ∃ d, j - earlier.length = d + 1 := ⟨j - earlier.length - 1, by omega⟩
    rw [hd, List.getElem?_cons_succ] at hentry
    exact List.mem_of_getElem? hentry
  have hno := hlater (g, j) (List.mem_reverse.1 hbehind)
  simp [haddress] at hno

theorem position?_eq_none_iff {founds : List Found} {p : Syntax.Place} :
    position? founds p = none ↔ ∀ f ∈ founds, f.place.address ≠ p.address := by
  unfold position?
  rw [Option.map_eq_none_iff, List.findRev?_eq_find?_reverse, List.find?_eq_none]
  constructor
  · intro h f hf haddress
    obtain ⟨i, hi⟩ := List.mem_iff_getElem?.1 hf
    have hentry : (f, i) ∈ founds.zipIdx.reverse := by
      rw [List.mem_reverse, List.mem_zipIdx_iff_getElem?]
      exact hi
    exact h (f, i) hentry (beq_iff_eq.2 haddress)
  · rintro h ⟨f, i⟩ hf hsame
    rw [List.mem_reverse, List.mem_zipIdx_iff_getElem?] at hf
    exact h f (List.mem_of_getElem? hf) (beq_iff_eq.1 hsame)

/-- The chunk at position `i` is the innermost one around a place: every other chunk around the
place is around it too. Should a node be listed more than once, its last entry is meant. -/
def IsInnermost (founds : List Found) (i : Nat) (p : Syntax.Place) : Prop :=
  ∃ f, founds[i]? = some f ∧ f.place ∈ p.ancestors ∧
    ∀ j g, founds[j]? = some g → g.place ∈ p.ancestors →
      g.place ∈ f.place.ancestors ∨ (g.place = f.place ∧ j ≤ i)

/-- A place has one innermost chunk at most. -/
theorem IsInnermost.unique {founds : List Found} {i k : Nat} {p : Syntax.Place}
    (hi : IsInnermost founds i p) (hk : IsInnermost founds k p) : i = k := by
  obtain ⟨f, hf, hfmem, hflast⟩ := hi
  obtain ⟨g, hg, hgmem, hglast⟩ := hk
  rcases hflast k g hg hgmem with houter | ⟨hsame, hle⟩
  · have hlt := Place.length_lt_of_mem_ancestors houter
    rcases hglast i f hf hfmem with hinner | ⟨heq, -⟩
    · have hlt' := Place.length_lt_of_mem_ancestors hinner
      omega
    · rw [heq] at hlt
      omega
  · rcases hglast i f hf hfmem with hinner | ⟨-, hle'⟩
    · have hlt := Place.length_lt_of_mem_ancestors hinner
      rw [hsame] at hlt
      omega
    · omega

section Owner

variable {root : Node} {founds : List Found}
  (hfounds : ∀ f ∈ founds, Place.IsUnder (.root root) f.place)
  {p : Syntax.Place} (hp : Place.IsUnder (.root root) p)

include hfounds hp

theorem owner?_eq_none_iff : owner? founds p = none ↔ ∀ f ∈ founds, f.place ∉ p.ancestors := by
  unfold owner?
  rw [List.findSome?_eq_none_iff]
  constructor
  · intro h f hf hmem
    exact position?_eq_none_iff.1 (h f.place hmem) f hf rfl
  · intro h q hq
    rw [position?_eq_none_iff]
    intro f hf haddress
    have hsame := (hfounds f hf).eq_of_address (hp.of_mem_ancestors hq) haddress
    exact h f hf (hsame ▸ hq)

theorem isInnermost_of_owner? {i : Nat} (h : owner? founds p = some i) :
    IsInnermost founds i p := by
  obtain ⟨before, q, after, hsplit, hq, hbefore⟩ := List.findSome?_eq_some_iff.1 h
  have hmem : q ∈ p.ancestors := hsplit ▸ List.mem_append_right before List.mem_cons_self
  have hq' := hp.of_mem_ancestors hmem
  obtain ⟨f, hf, haddress, hlast⟩ := position?_eq_some hq
  obtain rfl := (hfounds f (List.mem_of_getElem? hf)).eq_of_address hq' haddress
  refine ⟨f, hf, hmem, fun j g hg habove => ?_⟩
  rw [hsplit, List.mem_append, List.mem_cons] at habove
  rcases habove with hnearer | hsame | houter
  · have hnone := position?_eq_none_iff.1 (hbefore g.place hnearer) g (List.mem_of_getElem? hg)
    exact absurd rfl hnone
  · exact Or.inr ⟨hsame, hlast j g hg (congrArg Place.address hsame)⟩
  · rw [Place.ancestors_split hsplit]
    exact Or.inl houter

theorem owner?_eq_some_iff {i : Nat} : owner? founds p = some i ↔ IsInnermost founds i p := by
  refine ⟨isInnermost_of_owner? hfounds hp, fun h => ?_⟩
  cases howner : owner? founds p with
  | none =>
      obtain ⟨f, hf, hmem, -⟩ := h
      exact absurd hmem
        ((owner?_eq_none_iff hfounds hp).1 howner f (List.mem_of_getElem? hf))
  | some k =>
      rw [h.unique (isInnermost_of_owner? hfounds hp howner)]

end Owner

/-! ## Handing out -/

/-- Where a node is listed depends on the places alone. -/
theorem position?_eq_of_places {founds founds' : List Found}
    (h : founds.map (·.place) = founds'.map (·.place)) (p : Syntax.Place) :
    position? founds p = position? founds' p := by
  have hplaces : ∀ fs : List Found, position? fs p =
      ((fs.map (·.place)).zipIdx.findRev? fun (q, _) => q.address == p.address).map (·.2) := by
    intro fs
    unfold position?
    dsimp only
    rw [List.zipIdx_map, List.findRev?_eq_find?_reverse, List.findRev?_eq_find?_reverse,
      ← List.map_reverse, List.find?_map, Option.map_map]
    rfl
  rw [hplaces, hplaces, h]

theorem owner?_eq_of_places {founds founds' : List Found}
    (h : founds.map (·.place) = founds'.map (·.place)) (p : Syntax.Place) :
    owner? founds p = owner? founds' p := by
  unfold owner?
  congr 1
  funext q
  exact position?_eq_of_places h q

section HandingOut

variable (source : List Char)

/-- The name that a captured call has, if it has one. -/
def callName (capture : Syntax.Place × List Char) : Option String :=
  (CallName.ofText? capture.2).map String.ofList

/-- The name of a captured call that belongs to the chunk at position `i`. -/
def ownCall (founds : List Found) (i : Nat) (capture : Syntax.Place × List Char) :
    Option String :=
  if owner? founds capture.1 = some i then callName capture else none

/-- The captured type that belongs to the chunk at position `i`. -/
def ownType (founds : List Found) (i : Nat) (capture : Syntax.Place × List Char) :
    Option String :=
  if owner? founds capture.1 = some i then some (String.ofList capture.2) else none

/-- A captured call outside every chunk. -/
def looseCall (founds : List Found) (capture : Syntax.Place × List Char) : Option Loose :=
  if owner? founds capture.1 = none then
    (callName capture).map (⟨capture.1.node.startRow source, ·⟩)
  else none

/-- A captured type outside every chunk. -/
def looseType (founds : List Found) (capture : Syntax.Place × List Char) : Option Loose :=
  if owner? founds capture.1 = none then
    some ⟨capture.1.node.startRow source, String.ofList capture.2⟩
  else none

variable (a : Assignment) (capture : Syntax.Place × List Char)

/-- One call changes the list of its owner, and nothing else of the chunks. -/
theorem getElem?_addCall (i : Nat) :
    (a.addCall source capture).founds[i]? = a.founds[i]?.map fun f =>
      { f with calls := (ownCall a.founds i capture).toList.foldl addNew f.calls } := by
  unfold Assignment.addCall ownCall callName
  cases CallName.ofText? capture.2 with
  | none => simp
  | some cs =>
      dsimp only
      cases howner : owner? a.founds capture.1 with
      | none => simp
      | some k =>
          by_cases hk : k = i
          · subst hk
            simp [List.getElem?_modify_eq]
          · simp [hk]

theorem calls_addCall :
    (a.addCall source capture).calls =
      a.calls ++ (looseCall source a.founds capture).toList := by
  unfold Assignment.addCall looseCall callName
  cases CallName.ofText? capture.2 with
  | none => simp
  | some cs =>
      dsimp only
      cases owner? a.founds capture.1 <;> simp

theorem types_addCall : (a.addCall source capture).types = a.types := by
  unfold Assignment.addCall
  split
  · rfl
  · dsimp only
    split <;> rfl

theorem getElem?_addType (i : Nat) :
    (a.addType source capture).founds[i]? = a.founds[i]?.map fun f =>
      { f with
        typeRefs := ((ownType a.founds i capture).toList.filter fun name =>
          f.name != some name).foldl addNew f.typeRefs } := by
  unfold Assignment.addType ownType
  dsimp only
  cases howner : owner? a.founds capture.1 with
  | none => simp
  | some k =>
      by_cases hk : k = i
      · subst hk
        simp only [List.getElem?_modify_eq, if_true, Option.toList_some]
        congr 1
        funext f
        obtain ⟨place, kind, name, scopePath, calls, typeRefs⟩ := f
        by_cases hself : name = some (String.ofList capture.2) <;> simp [hself]
      · simp [hk]

theorem types_addType :
    (a.addType source capture).types =
      a.types ++ (looseType source a.founds capture).toList := by
  unfold Assignment.addType looseType
  dsimp only
  cases owner? a.founds capture.1 <;> simp

theorem calls_addType : (a.addType source capture).calls = a.calls := by
  unfold Assignment.addType
  dsimp only
  split <;> rfl

end HandingOut

section Run

variable {step : Assignment → Syntax.Place × List Char → Assignment}
  (hplaces : ∀ a capture, (step a capture).founds.map (·.place) = a.founds.map (·.place))

include hplaces

/-- What a chunk gets from all captures, when each capture gives it the names `own` and nothing
depends on the order in which names are given one by one or together. -/
theorem getElem?_foldl {own : List Found → Nat → Syntax.Place × List Char → Option String}
    (give : List String → Found → Found)
    (hown : ∀ {fs fs' : List Found}, fs.map (·.place) = fs'.map (·.place) → own fs = own fs')
    (hgive : ∀ names more f, give (names ++ more) f = give more (give names f))
    (hnil : ∀ f, give [] f = f)
    (hstep : ∀ a capture i, (step a capture).founds[i]? =
      a.founds[i]?.map (give (own a.founds i capture).toList))
    (captures : List (Syntax.Place × List Char)) (a : Assignment) (i : Nat) :
    (captures.foldl step a).founds[i]? =
      a.founds[i]?.map (give (captures.filterMap (own a.founds i))) := by
  induction captures generalizing a with
  | nil =>
      have hsame : give [] = id := funext hnil
      rw [List.foldl_nil, List.filterMap_nil, hsame, Option.map_id_apply]
  | cons capture captures ih =>
      have hcons : (capture :: captures).filterMap (own a.founds i) =
          (own a.founds i capture).toList ++ captures.filterMap (own a.founds i) := by
        rw [List.filterMap_cons]
        cases own a.founds i capture <;> rfl
      rw [List.foldl_cons, ih, hown (hplaces a capture), hstep, Option.map_map, hcons]
      congr 1
      funext f
      exact (hgive _ _ f).symm

/-- What is left over of all captures, when each capture leaves over `loose`. -/
theorem loose_foldl (left : Assignment → List Loose)
    (loose : List Found → Syntax.Place × List Char → Option Loose)
    (hloose : ∀ {fs fs' : List Found}, fs.map (·.place) = fs'.map (·.place) → loose fs = loose fs')
    (hstep : ∀ a capture, left (step a capture) = left a ++ (loose a.founds capture).toList)
    (captures : List (Syntax.Place × List Char)) (a : Assignment) :
    left (captures.foldl step a) = left a ++ captures.filterMap (loose a.founds) := by
  induction captures generalizing a with
  | nil => simp
  | cons capture captures ih =>
      have hcons : (capture :: captures).filterMap (loose a.founds) =
          (loose a.founds capture).toList ++ captures.filterMap (loose a.founds) := by
        rw [List.filterMap_cons]
        cases loose a.founds capture <;> rfl
      rw [List.foldl_cons, ih, hloose (hplaces a capture), hstep, List.append_assoc, hcons]

end Run

section Assign

variable (l : Language) (source : List Char) (root : Node) (founds : List Found)

/-- The calls and the types that belong to the chunk at position `i`, in the order of capture. -/
def ownCalls (i : Nat) : List String :=
  (captureTexts l.calls source (.root root)).filterMap (ownCall founds i)

def ownTypes (i : Nat) : List String :=
  (captureTexts l.types source (.root root)).filterMap (ownType founds i)

theorem getElem?_foldl_addCall (captures : List (Syntax.Place × List Char)) (a : Assignment)
    (i : Nat) :
    (captures.foldl (·.addCall source) a).founds[i]? = a.founds[i]?.map fun f =>
      { f with calls := (captures.filterMap (ownCall a.founds i)).foldl addNew f.calls } := by
  refine getElem?_foldl (map_place_addCall source)
    (fun names f => { f with calls := names.foldl addNew f.calls })
    (fun h => ?_) (fun names more f => ?_) (fun f => rfl) (getElem?_addCall source) captures a i
  · funext i capture
    rw [ownCall, ownCall, owner?_eq_of_places h]
  · rw [List.foldl_append]

theorem getElem?_foldl_addType (captures : List (Syntax.Place × List Char)) (a : Assignment)
    (i : Nat) :
    (captures.foldl (·.addType source) a).founds[i]? = a.founds[i]?.map fun f =>
      { f with
        typeRefs := ((captures.filterMap (ownType a.founds i)).filter fun name =>
          f.name != some name).foldl addNew f.typeRefs } := by
  refine getElem?_foldl (map_place_addType source)
    (fun names f =>
      { f with
        typeRefs := (names.filter fun name => f.name != some name).foldl addNew f.typeRefs })
    (fun h => ?_) (fun names more f => ?_) (fun f => rfl) (getElem?_addType source) captures a i
  · funext i capture
    rw [ownType, ownType, owner?_eq_of_places h]
  · rw [List.filter_append, List.foldl_append]

/-- The chunks when the calls are handed out and the types are not. -/
def afterCalls : Assignment :=
  (captureTexts l.calls source (.root root)).foldl (·.addCall source) ⟨founds, [], []⟩

theorem assign_eq :
    assign l source root founds = (captureTexts l.types source (.root root)).foldl
      (·.addType source) (afterCalls l source root founds) :=
  rfl

theorem map_place_afterCalls :
    (afterCalls l source root founds).founds.map (·.place) = founds.map (·.place) :=
  map_place_foldl (map_place_addCall source) _ _

theorem getElem?_assign (i : Nat) :
    (assign l source root founds).founds[i]? = founds[i]?.map fun f =>
      { f with
        calls := (ownCalls l source root founds i).foldl addNew f.calls
        typeRefs := ((ownTypes l source root founds i).filter fun name =>
          f.name != some name).foldl addNew f.typeRefs } := by
  have hown : ownType (afterCalls l source root founds).founds i = ownType founds i := by
    funext capture
    rw [ownType, ownType, owner?_eq_of_places (map_place_afterCalls l source root founds)]
  rw [assign_eq, getElem?_foldl_addType, hown, afterCalls, getElem?_foldl_addCall, Option.map_map]
  rfl

theorem calls_assign :
    (assign l source root founds).calls =
      (captureTexts l.calls source (.root root)).filterMap (looseCall source founds) := by
  have htypes := loose_foldl (map_place_addType source) Assignment.calls (fun _ _ => none)
    (fun _ => rfl)
    (fun a capture => by rw [calls_addType, Option.toList_none, List.append_nil])
    (captureTexts l.types source (.root root)) (afterCalls l source root founds)
  have hcalls := loose_foldl (map_place_addCall source) Assignment.calls (looseCall source)
    (fun h => by funext capture; rw [looseCall, looseCall, owner?_eq_of_places h])
    (calls_addCall source) (captureTexts l.calls source (.root root)) ⟨founds, [], []⟩
  rw [assign_eq, htypes, List.filterMap_none, List.append_nil, afterCalls, hcalls,
    List.nil_append]

theorem types_assign :
    (assign l source root founds).types =
      (captureTexts l.types source (.root root)).filterMap (looseType source founds) := by
  have hloose : ∀ {fs fs' : List Found}, fs.map (·.place) = fs'.map (·.place) →
      looseType source fs = looseType source fs' := by
    intro fs fs' h
    funext capture
    rw [looseType, looseType, owner?_eq_of_places h]
  have hcalls := loose_foldl (map_place_addCall source) Assignment.types (fun _ _ => none)
    (fun _ => rfl)
    (fun a capture => by rw [types_addCall, Option.toList_none, List.append_nil])
    (captureTexts l.calls source (.root root)) ⟨founds, [], []⟩
  have htypes := loose_foldl (map_place_addType source) Assignment.types (looseType source) hloose
    (types_addType source)
    (captureTexts l.types source (.root root)) (afterCalls l source root founds)
  rw [assign_eq, htypes, hloose (map_place_afterCalls l source root founds), afterCalls, hcalls,
    List.filterMap_none, List.append_nil, List.nil_append]

end Assign

/-! ## What the chunks get -/

/-- Nodes of a tree to which no name has been handed out. -/
def AreFresh (root : Node) (founds : List Found) : Prop :=
  ∀ f ∈ founds, f.place ∈ (Place.root root).preorder ∧ f.calls = [] ∧ f.typeRefs = []

/-- The captures of a tree are handed out to the chunks. `owner?` names the innermost chunk around
a capture. -/
structure IsHandedOut (l : Language) (source : List Char) (root : Node) (founds : List Found)
    (a : Assignment) : Prop where
  length_eq : a.founds.length = founds.length
  /-- A chunk gets names, and is otherwise as it was. -/
  kept : ∀ (i : Nat) (f g : Found), founds[i]? = some f → a.founds[i]? = some g →
    g = { f with calls := g.calls, typeRefs := g.typeRefs }
  owner?_eq : ∀ capture ∈ captureTexts l.calls source (.root root) ++
      captureTexts l.types source (.root root),
    (∀ i, owner? founds capture.1 = some i ↔ IsInnermost founds i capture.1) ∧
      (owner? founds capture.1 = none ↔ ∀ f ∈ founds, f.place ∉ capture.1.ancestors)
  mem_calls : ∀ (i : Nat) (f : Found), a.founds[i]? = some f → ∀ name, name ∈ f.calls ↔
    ∃ capture ∈ captureTexts l.calls source (.root root),
      callName capture = some name ∧ IsInnermost founds i capture.1
  /-- A chunk does not refer to itself. -/
  mem_typeRefs : ∀ (i : Nat) (f : Found), a.founds[i]? = some f → ∀ name, name ∈ f.typeRefs ↔
    f.name ≠ some name ∧ ∃ capture ∈ captureTexts l.types source (.root root),
      String.ofList capture.2 = name ∧ IsInnermost founds i capture.1
  nodup : ∀ f ∈ a.founds, f.calls.Nodup ∧ f.typeRefs.Nodup
  /-- Names stand in the order in which they are captured first. -/
  inOrder : ∀ (i : Nat) (f : Found), a.founds[i]? = some f →
    f.calls = (ownCalls l source root founds i).eraseDups ∧
      f.typeRefs = ((ownTypes l source root founds i).filter fun name =>
        f.name != some name).eraseDups
  /-- What no chunk is around is left over, once for each capture. -/
  looseCalls : a.calls = ((captureTexts l.calls source (.root root)).filter fun capture =>
    owner? founds capture.1 == none).filterMap fun capture =>
      (callName capture).map (⟨capture.1.node.startRow source, ·⟩)
  looseTypes : a.types = ((captureTexts l.types source (.root root)).filter fun capture =>
    owner? founds capture.1 == none).map fun capture =>
      ⟨capture.1.node.startRow source, String.ofList capture.2⟩

section Specification

variable {l : Language} {source : List Char} {root : Node} {founds : List Found}

/-- A list to which names are added one by one has each where it came first. -/
theorem foldl_addNew (names : List String) : names.foldl addNew [] = names.eraseDups :=
  distinct_eq_eraseDups names

theorem AreFresh.isUnder (hfounds : AreFresh root founds) {f : Found} (hf : f ∈ founds) :
    Place.IsUnder (.root root) f.place :=
  Place.mem_preorder_iff.1 (hfounds f hf).1

/-- What belongs to the chunk at position `i` is what it is the innermost chunk around. -/
theorem mem_owned (hfounds : AreFresh root founds) {captures : List (Syntax.Place × List Char)}
    (hcaptures : ∀ capture ∈ captures, Place.IsUnder (.root root) capture.1)
    (label : Syntax.Place × List Char → Option String) {i : Nat} {name : String} :
    (name ∈ captures.filterMap fun capture =>
      if owner? founds capture.1 = some i then label capture else none) ↔
      ∃ capture ∈ captures, label capture = some name ∧ IsInnermost founds i capture.1 := by
  rw [List.mem_filterMap]
  refine exists_congr fun capture => and_congr_right fun hcapture => ?_
  rw [← owner?_eq_some_iff (fun f hf => hfounds.isUnder hf) (hcaptures capture hcapture)]
  split
  · next howner => simp [howner]
  · next howner => simp [howner]

theorem mem_ownCalls (hfounds : AreFresh root founds) {i : Nat} {name : String} :
    name ∈ ownCalls l source root founds i ↔
      ∃ capture ∈ captureTexts l.calls source (.root root),
        callName capture = some name ∧ IsInnermost founds i capture.1 :=
  mem_owned hfounds (fun _ => isUnder_of_mem_captureTexts) callName

theorem mem_ownTypes (hfounds : AreFresh root founds) {i : Nat} {name : String} :
    name ∈ ownTypes l source root founds i ↔
      ∃ capture ∈ captureTexts l.types source (.root root),
        String.ofList capture.2 = name ∧ IsInnermost founds i capture.1 := by
  have howned : name ∈ ownTypes l source root founds i ↔
      ∃ capture ∈ captureTexts l.types source (.root root),
        some (String.ofList capture.2) = some name ∧ IsInnermost founds i capture.1 :=
    mem_owned hfounds (fun _ => isUnder_of_mem_captureTexts) fun capture =>
      some (String.ofList capture.2)
  simpa only [Option.some.injEq] using howned

/-- A chunk with what it gets. -/
theorem eq_of_getElem?_assign (hfounds : AreFresh root founds) {i : Nat} {g : Found}
    (hg : (assign l source root founds).founds[i]? = some g) :
    ∃ f, founds[i]? = some f ∧ g =
      { f with
        calls := (ownCalls l source root founds i).eraseDups
        typeRefs := ((ownTypes l source root founds i).filter fun name =>
          f.name != some name).eraseDups } := by
  rw [getElem?_assign] at hg
  obtain ⟨f, hf, rfl⟩ := Option.map_eq_some_iff.1 hg
  obtain ⟨-, hcalls, htypes⟩ := hfounds f (List.mem_of_getElem? hf)
  refine ⟨f, hf, ?_⟩
  rw [hcalls, htypes, foldl_addNew, foldl_addNew]

/-- Every capture goes to the innermost chunk around it, if there is one, and nowhere else. -/
theorem isHandedOut_assign (l : Language) (source : List Char) (root : Node)
    (founds : List Found) (hfounds : AreFresh root founds) :
    IsHandedOut l source root founds (assign l source root founds) := by
  have hunder : ∀ f ∈ founds, Place.IsUnder (.root root) f.place := fun f hf => hfounds.isUnder hf
  refine
    { length_eq := length_assign l source root founds
      kept := fun i f g hf hg => ?_
      owner?_eq := fun capture hcapture => ?_
      mem_calls := fun i g hg name => ?_
      mem_typeRefs := fun i g hg name => ?_
      nodup := fun g hg => ?_
      inOrder := fun i g hg => ?_
      looseCalls := ?_
      looseTypes := ?_ }
  · obtain ⟨f', hf', rfl⟩ := eq_of_getElem?_assign hfounds hg
    rw [hf] at hf'
    cases hf'
    rfl
  · have hplace : Place.IsUnder (.root root) capture.1 := by
      rcases List.mem_append.1 hcapture with hcall | htype
      · exact isUnder_of_mem_captureTexts hcall
      · exact isUnder_of_mem_captureTexts htype
    exact ⟨fun i => owner?_eq_some_iff hunder hplace, owner?_eq_none_iff hunder hplace⟩
  · obtain ⟨f, -, rfl⟩ := eq_of_getElem?_assign hfounds hg
    rw [← mem_ownCalls hfounds]
    exact List.mem_eraseDups
  · obtain ⟨f, -, rfl⟩ := eq_of_getElem?_assign hfounds hg
    rw [← mem_ownTypes hfounds]
    dsimp only
    rw [List.mem_eraseDups, List.mem_filter, bne_iff_ne, and_comm]
  · obtain ⟨i, hi⟩ := List.mem_iff_getElem?.1 hg
    obtain ⟨f, -, rfl⟩ := eq_of_getElem?_assign hfounds hi
    dsimp only
    rw [← distinct_eq_eraseDups, ← distinct_eq_eraseDups]
    exact ⟨nodup_distinct _, nodup_distinct _⟩
  · obtain ⟨f, -, rfl⟩ := eq_of_getElem?_assign hfounds hg
    exact ⟨rfl, rfl⟩
  · rw [calls_assign, List.filterMap_filter]
    congr 1
    funext capture
    rw [looseCall]
    cases owner? founds capture.1 <;> rfl
  · rw [types_assign, ← List.filterMap_eq_map, List.filterMap_filter]
    congr 1
    funext capture
    rw [looseType]
    cases owner? founds capture.1 <;> rfl

/-- The outline of a tree is fresh. -/
theorem areFresh_collect (l : Language) (source : List Char) (root : Node) :
    AreFresh root (collect l source root) := by
  intro f hf
  obtain ⟨hunder, -, -, hverdict⟩ := (mem_collect_iff l source).1 hf
  obtain ⟨kind, -, heq⟩ := Option.map_eq_some_iff.1 hverdict
  exact ⟨Place.mem_preorder_iff.2 hunder, heq ▸ rfl, heq ▸ rfl⟩

/-- The call inside the method belongs to it and not to the class; the one after the class is
left over. -/
theorem isHandedOut_assign_nested :
    let founds := collect .python nestedSource nestedTree
    let a := assign .python nestedSource nestedTree founds
    AreFresh nestedTree founds ∧ IsHandedOut .python nestedSource nestedTree founds a ∧
      a.founds.map (fun f => (f.scopePath, f.calls)) = [("A", []), ("A.f", ["g"])] ∧
      a.calls.map (fun c => (c.row, c.name)) = [(4, "g")] := by
  intro founds a
  have hfounds := areFresh_collect .python nestedSource nestedTree
  exact ⟨hfounds, isHandedOut_assign .python nestedSource nestedTree founds hfounds,
    by decide +kernel, by decide +kernel⟩

end Specification

end Outline

end CodeIndex
