import LineScript.Listing.Outline
import LineScript.Proofs.Listing.Traversals

/-! # Where the outline puts a statement

The outline holds the statements of a listing in their order, each under the openers that are open
where it stands. While it is built, what has been taken in is cut into the finished statements at
the top and those in each open block. The next statement always goes behind all of them, under the
blocks that are open, and a block that is finished is not touched again.
-/

namespace LineScript

namespace Outline

/-- The statement that the others are under. -/
def entry : Outline → Numbered
  | .node entry _ => entry

mutual
/-- The statements of a tree, each in front of those under it. -/
def statements : Outline → Listing
  | .node entry children => entry :: allStatements children

/-- The statements of siblings. -/
def allStatements : List Outline → Listing
  | [] => []
  | tree :: rest => statements tree ++ allStatements rest
end

/-- A place in an outline. -/
structure Place where
  /-- How many statements stand in front. -/
  position : Nat
  /-- The positions of the statements that this one is under, innermost first. -/
  above : List Nat
  /-- The statement with those under it. -/
  tree : Outline

/-- Where a statement stands, whatever is under it. -/
def Place.spot (place : Place) : Nat × List Nat × Numbered :=
  (place.position, place.above, place.tree.entry)

/-- The number of blocks around a statement. A closer is under its opener but ends the block. -/
def Place.depth (place : Place) : Nat :=
  if place.tree.entry.line.closes then place.above.length - 1 else place.above.length

mutual
/-- The places of a tree at position `first` under the statements at the positions `above`. -/
def places (first : Nat) (above : List Nat) : Outline → List Place
  | .node entry children =>
      ⟨first, above, .node entry children⟩ :: allPlaces (first + 1) (first :: above) children

/-- The places of siblings. -/
def allPlaces (first : Nat) (above : List Nat) : List Outline → List Place
  | [] => []
  | tree :: rest =>
      places first above tree ++ allPlaces (first + tree.statements.length) above rest
end

/-! ## Places and statements -/

theorem allStatements_append (trees more : List Outline) :
    allStatements (trees ++ more) = allStatements trees ++ allStatements more := by
  induction trees with
  | nil => rfl
  | cons tree trees ih => rw [List.cons_append, allStatements, ih, allStatements, List.append_assoc]

theorem allPlaces_append (first : Nat) (above : List Nat) (trees more : List Outline) :
    allPlaces first above (trees ++ more) =
      allPlaces first above trees ++
        allPlaces (first + (allStatements trees).length) above more := by
  induction trees generalizing first with
  | nil => rfl
  | cons tree trees ih =>
      rw [List.cons_append, allPlaces, ih, allPlaces, allStatements, List.length_append,
        List.append_assoc, Nat.add_assoc]

@[simp]
theorem statements_leaf (entry : Numbered) : statements (.node entry []) = [entry] := by
  rw [statements, allStatements]

@[simp]
theorem allStatements_singleton (tree : Outline) : allStatements [tree] = tree.statements := by
  rw [allStatements, allStatements, List.append_nil]

@[simp]
theorem allPlaces_singleton (first : Nat) (above : List Nat) (tree : Outline) :
    allPlaces first above [tree] = places first above tree := by
  rw [allPlaces, allPlaces, List.append_nil]

@[simp]
theorem places_leaf (first : Nat) (above : List Nat) (entry : Numbered) :
    places first above (.node entry []) = [⟨first, above, .node entry []⟩] := by
  rw [places, allPlaces]

mutual
theorem map_entry_places (first : Nat) (above : List Nat) :
    ∀ tree : Outline, (places first above tree).map (·.tree.entry) = tree.statements
  | .node entry children => by
      rw [places, List.map_cons, map_entry_allPlaces _ _ children, statements]
      rfl

theorem map_entry_allPlaces (first : Nat) (above : List Nat) :
    ∀ trees : List Outline, (allPlaces first above trees).map (·.tree.entry) = allStatements trees
  | [] => rfl
  | tree :: rest => by
      rw [allPlaces, List.map_append, map_entry_places _ _ tree, map_entry_allPlaces _ _ rest,
        allStatements]
end

mutual
theorem map_position_places (first : Nat) (above : List Nat) :
    ∀ tree : Outline,
      (places first above tree).map Place.position = List.range' first tree.statements.length
  | .node entry children => by
      rw [places, List.map_cons, map_position_allPlaces _ _ children, statements, List.length_cons,
        List.range'_succ]

theorem map_position_allPlaces (first : Nat) (above : List Nat) :
    ∀ trees : List Outline, (allPlaces first above trees).map Place.position =
      List.range' first (allStatements trees).length
  | [] => rfl
  | tree :: rest => by
      rw [allPlaces, List.map_append, map_position_places _ _ tree,
        map_position_allPlaces _ _ rest, allStatements, List.length_append,
        ← List.range'_append_1]
end

/-! ## Outlines under construction -/

namespace Building

/-- The outline if `trees` come next in the innermost open block and nothing comes behind them. -/
def fill (top : List Outline) : List (Numbered × List Outline) → List Outline → List Outline
  | [], trees => top.reverse ++ trees
  | (opener, children) :: outer, trees =>
      fill top outer [.node opener (children.reverse ++ trees)]

/-- How many statements have been taken in. -/
def taken (top : List Outline) : List (Numbered × List Outline) → Nat
  | [] => (allStatements top.reverse).length
  | (_, children) :: outer => taken top outer + 1 + (allStatements children.reverse).length

/-- The positions of the open blocks, innermost first. -/
def openPositions (top : List Outline) : List (Numbered × List Outline) → List Nat
  | [] => []
  | _ :: outer => taken top outer :: openPositions top outer

/-- The places of all statements but the openers of the open blocks. -/
def finished (top : List Outline) : List (Numbered × List Outline) → List Place
  | [] => allPlaces 0 [] top.reverse
  | (_, children) :: outer =>
      finished top outer ++
        allPlaces (taken top outer + 1) (taken top outer :: openPositions top outer)
          children.reverse

section Place

variable (b : Building) (tree : Outline)

theorem fill_place (trees : List Outline) :
    fill (b.place tree).top (b.place tree).opened trees = fill b.top b.opened (tree :: trees) := by
  obtain ⟨top, opened⟩ := b
  cases opened <;> simp [place, fill]

theorem taken_place : taken (b.place tree).top (b.place tree).opened =
    taken b.top b.opened + tree.statements.length := by
  obtain ⟨top, opened⟩ := b
  cases opened <;> simp [place, taken, allStatements_append, Nat.add_assoc]

theorem openPositions_place : openPositions (b.place tree).top (b.place tree).opened =
    openPositions b.top b.opened := by
  obtain ⟨top, opened⟩ := b
  cases opened <;> rfl

theorem finished_place : finished (b.place tree).top (b.place tree).opened =
    finished b.top b.opened ++
      places (taken b.top b.opened) (openPositions b.top b.opened) tree := by
  obtain ⟨top, opened⟩ := b
  cases opened <;> simp [place, finished, taken, openPositions, allPlaces_append]

end Place

section Shut

variable (b : Building)

theorem length_opened_shut : b.shut.opened.length = b.opened.length - 1 := by
  obtain ⟨top, opened⟩ := b
  match opened with
  | [] | [_] => rfl
  | _ :: _ :: _ => rfl

theorem fill_shut : fill b.shut.top b.shut.opened [] = fill b.top b.opened [] := by
  obtain ⟨top, opened⟩ := b
  cases opened with
  | nil => rfl
  | cons block outer => rw [shut, fill_place, fill, List.append_nil]

theorem taken_shut : taken b.shut.top b.shut.opened = taken b.top b.opened := by
  obtain ⟨top, opened⟩ := b
  cases opened with
  | nil => rfl
  | cons block outer =>
      rw [shut, taken_place, taken, statements, List.length_cons, Nat.add_comm _ 1, Nat.add_assoc]

theorem openPositions_shut : openPositions b.shut.top b.shut.opened =
    (openPositions b.top b.opened).tail := by
  obtain ⟨top, opened⟩ := b
  cases opened with
  | nil => rfl
  | cons block outer => rw [shut, openPositions_place, openPositions, List.tail_cons]

/-- A block that is finished joins what is finished already. -/
theorem finished_shut : finished b.top b.opened ⊆ finished b.shut.top b.shut.opened := by
  obtain ⟨top, opened⟩ := b
  cases opened with
  | nil => exact fun _ member => member
  | cons block outer =>
      rw [shut, finished_place, finished, places]
      exact List.append_subset.mpr ⟨List.subset_append_left _ _,
        List.subset_append_of_subset_right _ (List.subset_cons_self _ _)⟩

theorem finish_eq : b.finish = fill b.top b.opened [] := by
  have shuts : ∀ (opened : List (Numbered × List Outline)) (b : Building),
      b.opened.length = opened.length →
      (opened.foldl (fun b _ => b.shut) b).top.reverse = fill b.top b.opened [] := by
    intro opened
    induction opened with
    | nil =>
        intro b none_
        rw [List.eq_nil_of_length_eq_zero none_, fill, List.append_nil]
        rfl
    | cons block opened ih =>
        intro b length
        rw [List.foldl_cons, ih b.shut (by simp [length_opened_shut, length]), fill_shut]
  exact shuts b.opened b rfl

end Shut

section Add

variable {b : Building} {entry : Numbered}

theorem add_opens (opens : entry.line.opens = true) :
    b.add entry = ⟨b.top, (entry, []) :: b.opened⟩ := by
  rw [add, if_pos opens]

theorem add_closes (closes : entry.line.closes = true) :
    b.add entry = (b.place (.node entry [])).shut := by
  rw [add, if_neg (by simp [Line.opens_of_closes closes]), if_pos closes]

theorem add_other (opens : entry.line.opens = false) (closes : entry.line.closes = false) :
    b.add entry = b.place (.node entry []) := by
  rw [add, if_neg (by simp [opens]), if_neg (by simp [closes])]

/-- Whatever the next statement is, it comes last in the innermost block that is open in front of
    it. -/
theorem finish_add (b : Building) (entry : Numbered) :
    (b.add entry).finish = fill b.top b.opened [.node entry []] := by
  rw [finish_eq]
  rcases entry.line.roles with ⟨opens, -⟩ | ⟨-, closes⟩ | ⟨opens, closes⟩
  · rw [add_opens opens, fill, List.reverse_nil, List.nil_append]
  · rw [add_closes closes, fill_shut, fill_place]
  · rw [add_other opens closes, fill_place]

theorem taken_add (b : Building) (entry : Numbered) :
    taken (b.add entry).top (b.add entry).opened = taken b.top b.opened + 1 := by
  rcases entry.line.roles with ⟨opens, -⟩ | ⟨-, closes⟩ | ⟨opens, closes⟩
  · rw [add_opens opens, taken]
    rfl
  · rw [add_closes closes, taken_shut, taken_place, statements_leaf, List.length_singleton]
  · rw [add_other opens closes, taken_place, statements_leaf, List.length_singleton]

theorem finished_add (b : Building) (entry : Numbered) :
    finished b.top b.opened ⊆ finished (b.add entry).top (b.add entry).opened := by
  have placed : finished b.top b.opened ⊆ finished (b.place (.node entry [])).top
      (b.place (.node entry [])).opened := by
    rw [finished_place]
    exact List.subset_append_left _ _
  rcases entry.line.roles with ⟨opens, -⟩ | ⟨-, closes⟩ | ⟨opens, closes⟩
  · rw [add_opens opens, finished]
    exact List.subset_append_left _ _
  · rw [add_closes closes]
    exact List.Subset.trans placed (finished_shut _)
  · rw [add_other opens closes]
    exact placed

theorem finished_foldl_add (b : Building) (rest : Listing) :
    finished b.top b.opened ⊆ finished (rest.foldl add b).top (rest.foldl add b).opened := by
  induction rest generalizing b with
  | nil => exact fun _ member => member
  | cons entry rest ih => exact List.Subset.trans (finished_add b entry) (ih (b.add entry))

end Add

/-! ## Places in the whole outline -/

/-- What comes next in the innermost open block stands where the blocks say. -/
theorem allPlaces_subset_fill (top : List Outline) (opened : List (Numbered × List Outline))
    (trees : List Outline) :
    allPlaces (taken top opened) (openPositions top opened) trees ⊆
      allPlaces 0 [] (fill top opened trees) := by
  induction opened generalizing trees with
  | nil =>
      rw [fill, allPlaces_append, Nat.zero_add]
      exact List.subset_append_right _ _
  | cons block outer ih =>
      refine List.Subset.trans ?_ (ih _)
      rw [allPlaces_singleton, places, allPlaces_append]
      exact List.subset_cons_of_subset _ (List.subset_append_right _ _)

/-- What is finished stands in the outline as it is. -/
theorem finished_subset_fill (top : List Outline) (opened : List (Numbered × List Outline))
    (trees : List Outline) : finished top opened ⊆ allPlaces 0 [] (fill top opened trees) := by
  induction opened generalizing trees with
  | nil =>
      rw [fill, allPlaces_append]
      exact List.subset_append_left _ _
  | cons block outer ih =>
      refine List.append_subset.mpr ⟨ih _, List.Subset.trans ?_ (allPlaces_subset_fill top outer _)⟩
      rw [allPlaces_singleton, places, allPlaces_append]
      exact List.subset_cons_of_subset _ (List.subset_append_left _ _)

/-- Statements that come next change nothing about where the others stand, only what is under the
    open ones. -/
theorem map_spot_fill (top : List Outline) (opened : List (Numbered × List Outline))
    (trees : List Outline) :
    (allPlaces 0 [] (fill top opened trees)).map Place.spot =
      (allPlaces 0 [] (fill top opened [])).map Place.spot ++
        (allPlaces (taken top opened) (openPositions top opened) trees).map Place.spot := by
  induction opened generalizing trees with
  | nil => simp [fill, allPlaces_append, taken, openPositions]
  | cons block outer ih =>
      obtain ⟨opener, children⟩ := block
      rw [fill, ih, fill, ih [.node opener (children.reverse ++ [])], List.append_assoc]
      congr 1
      simp [places, allPlaces_append, taken, openPositions, Place.spot, entry]

/-- Whole blocks end in the block that they start in. -/
theorem exists_foldl_add_settled {inner : Listing} (settled : Settled inner) (top : List Outline)
    (opener : Numbered) (children : List Outline) (outer : List (Numbered × List Outline)) :
    ∃ children', inner.foldl add ⟨top, (opener, children) :: outer⟩ =
      ⟨top, (opener, children') :: outer⟩ := by
  induction settled generalizing opener children outer with
  | nil => exact ⟨children, rfl⟩
  | plain opens closes _ ih =>
      rw [List.foldl_cons, add_other opens closes]
      exact ih opener _ outer
  | block opens _ closes _ ihInner ihRest =>
      rw [List.foldl_cons, add_opens opens, List.foldl_append, List.foldl_cons]
      obtain ⟨within, inside⟩ := ihInner _ [] ((opener, children) :: outer)
      rw [inside, add_closes closes]
      exact ihRest opener _ outer

end Building

/-! ## The outline of a listing -/

/-- The outline of a listing before its open blocks are finished. -/
def building (listing : Listing) : Building :=
  listing.foldl Building.add ⟨[], []⟩

theorem building_append (front rest : Listing) :
    building (front ++ rest) = rest.foldl Building.add (building front) :=
  List.foldl_append

theorem taken_building (listing : Listing) :
    Building.taken (building listing).top (building listing).opened = listing.length := by
  induction listing using List.reverseRecOn with
  | nil => rfl
  | append_singleton before entry ih =>
      rw [building_append, List.length_append, ← ih]
      exact Building.taken_add (building before) entry

/-- The blocks that are open are those on the stack. -/
theorem openPositions_building (listing : Listing) :
    Building.openPositions (building listing).top (building listing).opened =
      (Listing.opened listing).map Prod.fst := by
  induction listing using List.reverseRecOn with
  | nil => rfl
  | append_singleton before entry ih =>
      rw [building_append, List.foldl_cons, List.foldl_nil]
      rcases entry.line.roles with ⟨opens, -⟩ | ⟨-, closes⟩ | ⟨opens, closes⟩
      · rw [Building.add_opens opens, Building.openPositions, taken_building, ih,
          Listing.opened_snoc_opens opens, List.map_cons]
      · rw [Building.add_closes closes, Building.openPositions_shut, Building.openPositions_place,
          ih, Listing.opened_snoc_closes closes, List.map_tail]
      · rw [Building.add_other opens closes, Building.openPositions_place, ih,
          Listing.opened_snoc_plain opens closes]

theorem finished_subset_ofListing (front rest : Listing) :
    Building.finished (building front).top (building front).opened ⊆
      allPlaces 0 [] (ofListing (front ++ rest)) := by
  rw [ofListing, ← building, building_append, Building.finish_eq]
  exact List.Subset.trans (Building.finished_foldl_add (building front) rest)
    (Building.finished_subset_fill _ _ _)

/-- Where the statements of a listing stand in its outline. -/
def spots (listing : Listing) : List (Nat × List Nat × Numbered) :=
  (allPlaces 0 [] (ofListing listing)).map Place.spot

theorem spots_snoc (before : Listing) (entry : Numbered) :
    spots (before ++ [entry]) =
      spots before ++ [(before.length, (Listing.opened before).map Prod.fst, entry)] := by
  have last : ofListing (before ++ [entry]) =
      Building.fill (building before).top (building before).opened [.node entry []] := by
    rw [ofListing, ← building, building_append]
    exact Building.finish_add (building before) entry
  have front : ofListing before =
      Building.fill (building before).top (building before).opened [] := by
    rw [ofListing, ← building, Building.finish_eq]
  rw [spots, last, Building.map_spot_fill, ← front, taken_building, openPositions_building,
    allPlaces_singleton, places_leaf]
  rfl

theorem spots_prefix (front rest : Listing) : spots front <+: spots (front ++ rest) := by
  induction rest using List.reverseRecOn with
  | nil => rw [List.append_nil]
  | append_singleton rest entry ih =>
      rw [← List.append_assoc, spots_snoc]
      exact ih.trans (List.prefix_append _ _)

theorem map_entry_spots (listing : Listing) : (spots listing).map (·.2.2) = listing := by
  induction listing using List.reverseRecOn with
  | nil => rfl
  | append_singleton before entry ih => rw [spots_snoc, List.map_append, ih, List.map_singleton]

theorem length_spots (listing : Listing) : (spots listing).length = listing.length := by
  rw [← List.length_map (·.2.2), map_entry_spots]

/-- Every statement stands under the blocks on the stack in front of it. -/
theorem getElem?_spots (before : Listing) (entry : Numbered) (rest : Listing) :
    (spots (before ++ entry :: rest))[before.length]? =
      some (before.length, (Listing.opened before).map Prod.fst, entry) := by
  have length := length_spots before
  have front := spots_prefix (before ++ [entry]) rest
  rw [List.append_assoc, List.singleton_append, spots_snoc] at front
  obtain ⟨later, whole⟩ := front
  rw [← whole, List.append_assoc, List.getElem?_append_right length.le, length, Nat.sub_self]
  rfl

theorem exists_place (before : Listing) (entry : Numbered) (rest : Listing) :
    ∃ children, ⟨before.length, (Listing.opened before).map Prod.fst, .node entry children⟩ ∈
      allPlaces 0 [] (ofListing (before ++ entry :: rest)) := by
  have found := List.mem_of_getElem? (getElem?_spots before entry rest)
  obtain ⟨⟨position, above, ⟨entry', children⟩⟩, member, same⟩ := List.mem_map.mp found
  cases same
  exact ⟨children, member⟩

theorem allStatements_ofListing (listing : Listing) :
    allStatements (ofListing listing) = listing := by
  calc allStatements (ofListing listing)
      _ = (allPlaces 0 [] (ofListing listing)).map (·.tree.entry) :=
        (map_entry_allPlaces 0 [] _).symm
      _ = (spots listing).map (·.2.2) := by
        rw [spots, List.map_map]
        rfl
      _ = listing := map_entry_spots listing

/-- A closer is the last statement under the opener of its block. -/
theorem places_of_matched {listing : Listing} {i k : Nat} (matched : listing.Matched i k) :
    ∃ opener children closer above, listing[i]? = some opener ∧ listing[k]? = some closer ∧
      ⟨i, above, .node opener (children ++ [.node closer []])⟩ ∈
        allPlaces 0 [] (ofListing listing) ∧
      k = i + 1 + (allStatements children).length ∧
      ⟨k, i :: above, .node closer []⟩ ∈ allPlaces 0 [] (ofListing listing) := by
  obtain ⟨before, opener, inner, closer, behind, rfl, opens, settled, closes, rfl, rfl⟩ :=
    matched.split
  obtain ⟨children, inside⟩ : ∃ children, building (before ++ opener :: inner) =
      ⟨(building before).top, (opener, children) :: (building before).opened⟩ := by
    rw [building_append, List.foldl_cons, Building.add_opens opens]
    exact Building.exists_foldl_add_settled settled _ _ _ _
  have length : before.length + 1 + (allStatements children.reverse).length =
      (before ++ opener :: inner).length := by
    rw [← taken_building (before ++ opener :: inner), inside, Building.taken, taken_building]
  -- With the closer the block is finished, and it stays as it is.
  have whole : before ++ opener :: (inner ++ closer :: behind) =
      (before ++ opener :: inner ++ [closer]) ++ behind := by simp
  have kept := finished_subset_ofListing (before ++ opener :: inner ++ [closer]) behind
  have shut : building (before ++ opener :: inner ++ [closer]) =
      (building before).place (.node opener (children.reverse ++ [.node closer []])) := by
    rw [building_append, inside, List.foldl_cons, Building.add_closes closes]
    simp [Building.place, Building.shut]
  rw [shut, Building.finished_place, taken_building, openPositions_building, places, ← whole]
    at kept
  refine ⟨opener, children.reverse, closer, (Listing.opened before).map Prod.fst, by simp,
    by simp, kept ?_, length.symm, kept ?_⟩
  · exact List.mem_append_right _ (List.mem_cons_self ..)
  · rw [allPlaces_append, length, allPlaces_singleton, places_leaf]
    simp

/-- A closer of no block is at the top. -/
theorem place_of_stray {listing : Listing} {k : Nat} {closer : Numbered}
    (found : listing[k]? = some closer) (closes : closer.line.closes = true)
    (stray : ∀ i, ¬ listing.Matched i k) :
    ⟨k, [], .node closer []⟩ ∈ allPlaces 0 [] (ofListing listing) := by
  obtain ⟨before, rest, rfl, rfl⟩ := Listing.exists_append found
  have none_ : (building before).opened = [] := by
    have positions := openPositions_building before
    rw [Listing.opened_eq_nil closes stray] at positions
    cases stack : (building before).opened with
    | nil => rfl
    | cons block outer =>
        rw [stack] at positions
        cases positions
  have kept := finished_subset_ofListing (before ++ [closer]) rest
  have added : building (before ++ [closer]) = (building before).place (.node closer []) := by
    rw [building_append, List.foldl_cons, Building.add_closes closes]
    simp [Building.shut, Building.place, none_]
  rw [added, Building.finished_place, taken_building, openPositions_building,
    Listing.opened_eq_nil closes stray, places_leaf, List.append_assoc] at kept
  exact kept (by simp)

/-- The lines of the openers on the stack. -/
theorem unclosed_take (before : Listing) (rest : Listing) :
    before.generate.unclosed.map some =
      ((Listing.opened before).map Prod.fst).reverse.map
        fun i => (before ++ rest)[i]?.map Numbered.number := by
  have lines : before.emission.unclosed = (Listing.opened before).reverse.map (·.2.number) :=
    Listing.unclosed_emissionFrom 0 [] before
  rw [Listing.generate_eq, Emission.generated, lines, ← List.map_reverse, List.map_map,
    List.map_map]
  apply List.map_congr_left
  rintro ⟨i, opener⟩ member
  obtain ⟨depth, found, -⟩ := Listing.mem_opened_iff.mp (List.mem_reverse.mp member)
  have inside := (List.getElem?_eq_some_iff.mp found).1
  simp [List.getElem?_append_left inside, found]

/-- The depth at which a statement is generated is that of its place. -/
theorem lines_eq (listing : Listing) :
    listing.emission.lines = (allPlaces 0 [] (ofListing listing)).filterMap
      fun place => place.tree.entry.emitted? place.depth := by
  let deep (spot : Nat × List Nat × Numbered) : Numbered × Nat :=
    (spot.2.2, if spot.2.2.line.closes then spot.2.1.length - 1 else spot.2.1.length)
  have depths : (spots listing).map deep = listing.zip (Listing.depthsFrom 0 listing) := by
    apply List.ext_getElem?
    intro p
    rw [List.getElem?_map]
    cases found : listing[p]? with
    | none =>
        have beyond := List.getElem?_eq_none_iff.mp found
        rw [List.getElem?_eq_none (by rw [length_spots]; omega), List.getElem?_eq_none (by simp; omega)]
        rfl
    | some entry =>
        have paired : (listing.zip (Listing.depthsFrom 0 listing))[p]? =
            some (entry, listing.depthAt p) :=
          List.getElem?_zip_eq_some.mpr ⟨found, Listing.getElem?_depthsFrom found⟩
        rw [paired]
        obtain ⟨before, rest, rfl, rfl⟩ := Listing.exists_append found
        rw [getElem?_spots, Listing.depthAt_eq, Listing.around]
        simp only [deep, List.length_map, Option.map_some]
        split <;> simp
  rw [Listing.emission, Listing.emissionFrom_lines, ← depths, spots, List.map_map,
    List.filterMap_map]
  rfl

/-- What it is for trees to show how the blocks of a listing nest. -/
structure Arranges (trees : List Outline) (listing : Listing) : Prop where
  statements : allStatements trees = listing
  positions : (allPlaces 0 [] trees).map Place.position = List.range listing.length
  /-- The closer of a block is the last statement under its opener. -/
  matched : ∀ i k, listing.Matched i k → ∃ opener children closer above,
    listing[i]? = some opener ∧ listing[k]? = some closer ∧
      ⟨i, above, .node opener (children ++ [.node closer []])⟩ ∈ allPlaces 0 [] trees ∧
      k = i + 1 + (allStatements children).length ∧
      ⟨k, i :: above, .node closer []⟩ ∈ allPlaces 0 [] trees
  /-- A closer of no block is at the top. -/
  stray : ∀ k closer, listing[k]? = some closer → closer.line.closes = true →
    (∀ i, ¬ listing.Matched i k) → ⟨k, [], .node closer []⟩ ∈ allPlaces 0 [] trees
  /-- Any other statement is under the openers that are open, whether they are closed later or not.
      These are the ones that generation keeps open. -/
  nested : ∀ p entry, listing[p]? = some entry → entry.line.closes = false → ∃ above children,
    ⟨p, above, .node entry children⟩ ∈ allPlaces 0 [] trees ∧ above.Pairwise (· > ·) ∧
      (∀ i, i ∈ above ↔ listing.IsOpenAt p i) ∧
      (Listing.generate (listing.take p)).unclosed.map some =
        above.reverse.map fun i => listing[i]?.map Numbered.number
  /-- A statement is generated at the depth of its place: the script is made of these lines. -/
  lines : ∃ g : Emission, listing.generate = g.generated ∧
    g.lines = (allPlaces 0 [] trees).filterMap fun place =>
      place.tree.entry.emitted? place.depth

/-- The outline has every statement once, in the order of the listing, and nests it as the blocks
    of the listing ask for. -/
theorem arranges_ofListing (listing : Listing) : Arranges (ofListing listing) listing where
  statements := allStatements_ofListing listing
  positions := by
    rw [map_position_allPlaces, allStatements_ofListing, List.range_eq_range']
  matched i k matched := places_of_matched matched
  stray k closer found closes stray := place_of_stray found closes stray
  nested p entry found other := by
    obtain ⟨before, rest, rfl, rfl⟩ := Listing.exists_append found
    obtain ⟨children, member⟩ := exists_place before entry rest
    have around : Listing.around before entry = Listing.opened before := by
      rw [Listing.around, if_neg (by simp [other])]
    refine ⟨_, children, member, ?_, ?_, ?_⟩
    · exact List.pairwise_map.mpr (Listing.pairwise_opened before)
    · intro i
      rw [Listing.isOpenAt_iff, around]
    · rw [List.take_left]
      exact unclosed_take before (entry :: rest)
  lines := ⟨listing.emission, listing.generate_eq, lines_eq listing⟩

end Outline

end LineScript
