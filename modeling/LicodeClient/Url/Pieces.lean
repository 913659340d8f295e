import LicodeClient.Url.Request
import LicodeClient.Url.RoundTrip

/-!
What printing makes of what was read. The segments of a path are the normal form of
its pieces, without the dots and what they take back (`normalized_eq_iff`), and it is
printed as it was read when all of them stay (`slashed_normalized_iff`). The
parameters of a query are the pairs of its pieces, and a query is printed as it was
read when each piece has a name and an equals sign and they stand in the order of the
map (`joined_iff`).
-/
namespace LicodeClient.HttpUrl
open Positions (before behind before_behind before_mark behind_mark not_mem_before mem_of_mem_before mem_of_mem_behind)
open HttpUrl.Builder Components

/-! ### Paths -/

/-- Segments as they are printed. -/
def slashed (segments : List Text) : Text := segments.flatMap (fun i => '/' :: i)

/-- A piece of a path that becomes a segment: neither empty nor dots. -/
def Stays (piece : Text) : Prop := piece ≠ [] ∧ piece ≠ lit "." ∧ piece ≠ lit ".."

theorem stays_of_mem {c : Char} {piece : Text} (member : c ∈ piece) (other : c ≠ '.') : Stays piece := by
  have dots : c ∉ lit "." ∧ c ∉ lit ".." := by simp [lit,other]
  refine ⟨?_,?_,?_⟩
  · rintro rfl
    cases member
  · rintro rfl
    exact dots.1 member
  · rintro rfl
    exact dots.2 member

theorem pushSegment_stays {piece : Text} (stays : Stays piece) (segments : List Text) :
    pushSegment segments piece = segments ++ [piece] := by
  rw [pushSegment,if_neg (fun skipped => skipped.elim stays.1 stays.2.1),if_neg stays.2.2]

theorem foldl_pushSegment_stays {pieces : List Text} (stay : ∀ piece ∈ pieces, Stays piece) (segments : List Text) :
    pieces.foldl pushSegment segments = segments ++ pieces := by
  induction pieces generalizing segments with
  | nil => simp
  | cons piece pieces ih =>
    rw [List.foldl_cons,pushSegment_stays (stay piece List.mem_cons_self),
      ih (fun p member => stay p (List.mem_cons_of_mem _ member)),List.append_assoc,List.singleton_append]

theorem mem_pushSegment {segments : List Text} {piece segment : Text} (member : segment ∈ pushSegment segments piece) :
    segment ∈ segments ∨ segment = piece ∧ Stays piece := by
  unfold pushSegment at member
  split at member
  · exact .inl member
  · next skipped =>
    split at member
    · exact .inl (List.dropLast_subset _ member)
    · next dots =>
      rcases List.mem_append.mp member with old | new
      · exact .inl old
      · exact .inr ⟨List.mem_singleton.mp new,fun empty => skipped (.inl empty),fun dot => skipped (.inr dot),dots⟩

theorem mem_foldl_pushSegment {pieces segments : List Text} {segment : Text}
    (member : segment ∈ pieces.foldl pushSegment segments) :
    segment ∈ segments ∨ segment ∈ pieces ∧ Stays segment := by
  induction pieces generalizing segments with
  | nil => exact .inl member
  | cons piece pieces ih =>
    rcases ih member with old | ⟨later,stays⟩
    · rcases mem_pushSegment old with older | ⟨rfl,stays⟩
      · exact .inl older
      · exact .inr ⟨List.mem_cons_self,stays⟩
    · exact .inr ⟨List.mem_cons_of_mem _ later,stays⟩

theorem mem_normalized {path segment : Text} (member : segment ∈ normalized path) :
    segment ∈ path.splitOn '/' ∧ Stays segment :=
  (mem_foldl_pushSegment member).resolve_left List.not_mem_nil

/-- A printed path holds slashes and characters of the path that was read. -/
theorem mem_slashed_normalized {c : Char} {path : Text} (member : c ∈ slashed (normalized path)) :
    c = '/' ∨ c ∈ path := by
  obtain ⟨segment,listed,inside⟩ := List.mem_flatMap.mp member
  rcases List.mem_cons.mp inside with slash | inside
  · exact .inl slash
  · exact .inr ((Scan.mem_splitOn (mem_normalized listed).1).2 c inside)

theorem slashed_splitOn (path : Text) : slashed (path.splitOn '/') = '/' :: path := by
  rw [slashed,flatMap_slash (List.splitOn_ne_nil '/' path),List.intercalate_splitOn]

/-- Printed segments are split off again. -/
theorem splitOn_slashed {segments : List Text} (free : ∀ s ∈ segments, '/' ∉ s) (front : Text) :
    (front ++ slashed segments).splitOn '/' = front.splitOn '/' ++ segments := by
  induction segments generalizing front with
  | nil => simp [slashed]
  | cons segment segments ih =>
    have shape : front ++ slashed (segment :: segments) = front ++ '/' :: (segment ++ slashed segments) := by
      simp [slashed]
    rw [shape,List.splitOn_append_cons_self,ih (fun s member => free s (List.mem_cons_of_mem _ member)),
      List.splitOn_eq_singleton (free segment List.mem_cons_self),List.singleton_append]

theorem normalized_slashed (front path : Text) :
    normalized (front ++ slashed (normalized path)) = normalized front ++ normalized path := by
  have free : ∀ s ∈ normalized path, '/' ∉ s := fun s member => (Scan.mem_splitOn (mem_normalized member).1).1
  rw [normalized,splitOn_slashed free,List.foldl_append,
    foldl_pushSegment_stays (fun s member => (mem_normalized member).2)]
  rfl

theorem length_slashed_foldl (pieces segments : List Text) :
    (slashed (pieces.foldl pushSegment segments)).length ≤ (slashed segments).length + (slashed pieces).length := by
  have append : ∀ xs ys, (slashed (xs ++ ys)).length = (slashed xs).length + (slashed ys).length := by
    intro xs ys
    simp [slashed]
  induction pieces generalizing segments with
  | nil => exact Nat.le_add_right _ _
  | cons piece pieces ih =>
    have later := ih (pushSegment segments piece)
    have here : (slashed (pushSegment segments piece)).length ≤
        (slashed segments).length + (slashed [piece]).length := by
      unfold pushSegment
      split
      · exact Nat.le_add_right _ _
      · split
        · rcases List.eq_nil_or_concat segments with rfl | ⟨front,last,rfl⟩
          · exact Nat.le_add_right _ _
          · rw [List.concat_eq_append,List.dropLast_concat,append]
            omega
        · rw [append]
    have whole := append [piece] pieces
    rw [List.singleton_append] at whole
    rw [List.foldl_cons,whole]
    omega

/-- Printing does not make a path longer. -/
theorem length_slashed_normalized (path : Text) : (slashed (normalized path)).length ≤ path.length + 1 := by
  have bound := length_slashed_foldl (path.splitOn '/') []
  rw [slashed_splitOn] at bound
  simpa [slashed,normalized] using bound

/-- A path is printed as it was read when all of its pieces stay. -/
theorem slashed_normalized_iff (path : Text) :
    slashed (normalized path) = '/' :: path ↔ ∀ piece ∈ path.splitOn '/', Stays piece := by
  constructor
  · intro same piece member
    have free : ∀ s ∈ normalized path, '/' ∉ s := fun s listed => (Scan.mem_splitOn (mem_normalized listed).1).1
    have split := splitOn_slashed free []
    have slash : ('/' :: path).splitOn '/' = [] :: path.splitOn '/' := List.splitOn_append_cons_self [] path
    rw [List.nil_append,same,slash,List.splitOn_nil,List.singleton_append] at split
    rw [(List.cons.inj split).2] at member
    exact (mem_normalized member).2
  · intro stay
    rw [normalized,foldl_pushSegment_stays stay,List.nil_append,slashed_splitOn]

/-- A path whose last piece holds a colon leaves a segment. -/
theorem normalized_colon {port : Text} (free : '/' ∉ port) (front : Text) : normalized (front ++ ':' :: port) ≠ [] := by
  have apart : '/' ∉ ':' :: port := by simp [free]
  obtain ⟨pieces,last,_,split⟩ := Scan.splitOn_append apart front
  have stays : Stays (last ++ ':' :: port) := stays_of_mem (c := ':') (by simp) (by decide)
  rw [normalized,split,List.foldl_append,List.foldl_cons,List.foldl_nil,pushSegment_stays stays]
  simp

/-! ### Paths with dots -/

/-- What a list of pieces comes down to, from left to right: an empty piece and a
    dot are dropped, two dots take the segment before them, if there is one, and
    any other piece stays. -/
inductive NormalForm : List Text → List Text → Prop where
  | none : NormalForm [] []
  | drop {pieces segments : List Text} {piece : Text} (form : NormalForm pieces segments)
      (idle : piece = [] ∨ piece = lit ".") : NormalForm (pieces ++ [piece]) segments
  | back {pieces segments : List Text} {segment : Text} (form : NormalForm pieces (segments ++ [segment])) :
      NormalForm (pieces ++ [lit ".."]) segments
  | root {pieces : List Text} (form : NormalForm pieces []) : NormalForm (pieces ++ [lit ".."]) []
  | keep {pieces segments : List Text} {piece : Text} (form : NormalForm pieces segments) (stays : Stays piece) :
      NormalForm (pieces ++ [piece]) (segments ++ [piece])

theorem foldl_snoc (pieces : List Text) (piece : Text) :
    (pieces ++ [piece]).foldl pushSegment [] = pushSegment (pieces.foldl pushSegment []) piece := by
  rw [List.foldl_append,List.foldl_cons,List.foldl_nil]

theorem pushSegment_idle {piece : Text} (idle : piece = [] ∨ piece = lit ".") (segments : List Text) :
    pushSegment segments piece = segments := if_pos idle

theorem pushSegment_back (segments : List Text) : pushSegment segments (lit "..") = segments.dropLast := by
  rw [pushSegment,if_neg (by decide),if_pos rfl]

theorem eq_of_normalForm {pieces segments : List Text} (form : NormalForm pieces segments) :
    segments = pieces.foldl pushSegment [] := by
  induction form with
  | none => rfl
  | drop form idle ih => rw [foldl_snoc,pushSegment_idle idle,ih]
  | back form ih => rw [foldl_snoc,pushSegment_back,← ih,List.dropLast_concat]
  | root form ih => rw [foldl_snoc,pushSegment_back,← ih,List.dropLast_nil]
  | keep form stays ih => rw [foldl_snoc,pushSegment_stays stays,ih]

theorem normalForm_foldl (pieces : List Text) : NormalForm pieces (pieces.foldl pushSegment []) := by
  induction pieces using List.reverseRecOn with
  | nil => exact .none
  | append_singleton pieces piece ih =>
    rw [foldl_snoc]
    by_cases idle : piece = [] ∨ piece = lit "."
    · rw [pushSegment_idle idle]
      exact .drop ih idle
    · by_cases dots : piece = lit ".."
      · subst dots
        rw [pushSegment_back]
        rcases List.eq_nil_or_concat (pieces.foldl pushSegment []) with root | ⟨segments,segment,shape⟩
        · rw [root] at ih ⊢
          exact .root ih
        · rw [shape,List.concat_eq_append] at ih ⊢
          rw [List.dropLast_concat]
          exact .back ih
      · obtain ⟨given,dot⟩ := not_or.mp idle
        have stays : Stays piece := ⟨given,dot,dots⟩
        rw [pushSegment_stays stays]
        exact .keep ih stays

/-- Every list of pieces has one normal form. -/
theorem normalForm_iff (pieces segments : List Text) :
    NormalForm pieces segments ↔ segments = pieces.foldl pushSegment [] := by
  constructor
  · exact eq_of_normalForm
  · rintro rfl
    exact normalForm_foldl pieces

/-- The segments of a path by its pieces. -/
theorem normalized_eq_iff {path : Text} {segments : List Text} :
    normalized path = segments ↔ NormalForm (path.splitOn '/') segments := by
  rw [normalForm_iff]
  exact eq_comm

/-! ### Queries -/

/-- The name and the value of a piece. -/
def pairOf (piece : Text) : Text × Text := (before '=' piece,behind '=' piece)

theorem item_pairOf {piece : Text} (equals : '=' ∈ piece) : item (pairOf piece) = piece := before_behind equals

theorem pairOf_item {p : Text × Text} (free : '=' ∉ p.1) : pairOf (item p) = p := by
  rw [pairOf,item,before_mark free,behind_mark free]

theorem holds_foldl_addPiece (pieces : List Text) {query : Query} {k v : Text} :
    (pieces.foldl addPiece query).Holds k v ↔ (k ≠ [] ∧ ∃ piece ∈ pieces, pairOf piece = (k,v)) ∨ query.Holds k v := by
  induction pieces generalizing query with
  | nil => simp
  | cons piece pieces ih =>
    have added : (addPiece query piece).Holds k v ↔ (k ≠ [] ∧ pairOf piece = (k,v)) ∨ query.Holds k v := by
      unfold addPiece
      by_cases nameless : before '=' piece = []
      · have skipped : ¬ (k ≠ [] ∧ pairOf piece = (k,v)) := by
          rintro ⟨named,same⟩
          exact named ((Prod.mk.inj same).1.symm.trans nameless)
        rw [if_pos nameless,or_iff_right skipped]
      · rw [if_neg nameless,Multimap.holds_add]
        refine or_congr_left ⟨fun same => ⟨?_,same⟩,And.right⟩
        rw [← (Prod.mk.inj same).1]
        exact nameless
    rw [List.foldl_cons,ih,added,List.exists_mem_cons_iff,and_or_left,← or_assoc]
    exact or_congr_left or_comm

/-- The parameters of a query are the pairs of its pieces, but for nameless ones. -/
theorem mem_pairs_paramsOf {query : Text} {p : Text × Text} :
    p ∈ (paramsOf query).pairs ↔ p.1 ≠ [] ∧ ∃ piece ∈ query.splitOn '&', pairOf piece = p := by
  obtain ⟨k,v⟩ := p
  rw [Multimap.mem_pairs,paramsOf,holds_foldl_addPiece]
  exact or_iff_left (Multimap.not_holds_empty k v)

theorem free_pairs {query : Text} {p : Text × Text} (member : p ∈ (paramsOf query).pairs) :
    p.1 ≠ [] ∧ '=' ∉ p.1 ∧ '&' ∉ item p := by
  obtain ⟨named,piece,listed,rfl⟩ := mem_pairs_paramsOf.mp member
  obtain ⟨free,-⟩ := Scan.mem_splitOn listed
  have name : '&' ∉ before '=' piece := fun inside => free (mem_of_mem_before inside)
  have value : '&' ∉ behind '=' piece := fun inside => free (mem_of_mem_behind inside)
  exact ⟨named,not_mem_before '=' piece,by simp [item,pairOf,name,value]⟩

theorem pairs_paramsOf_eq_nil {query : Text} (empty : (paramsOf query).pairs = []) : paramsOf query = ∅ := by
  have rebuilt := Multimap.foldl_add_pairs (full_paramsOf query)
  rw [empty] at rebuilt
  exact rebuilt.symm

theorem paramsOf_eq_empty_iff (query : Text) :
    paramsOf query = ∅ ↔ ∀ piece ∈ query.splitOn '&', before '=' piece = [] := by
  constructor
  · intro empty piece listed
    by_contra named
    have member : pairOf piece ∈ (paramsOf query).pairs := mem_pairs_paramsOf.mpr ⟨named,piece,listed,rfl⟩
    rw [empty] at member
    cases member
  · intro nameless
    refine pairs_paramsOf_eq_nil (List.eq_nil_iff_forall_not_mem.mpr (fun p member => ?_))
    obtain ⟨named,piece,listed,rfl⟩ := mem_pairs_paramsOf.mp member
    exact named (nameless piece listed)

/-- The text behind the mark of a printed query. -/
def joined (query : Text) : Text := ['&'].intercalate ((paramsOf query).pairs.map item)

theorem renderQuery_empty : renderQuery ∅ = [] := rfl

theorem renderQuery_paramsOf {query : Text} (given : paramsOf query ≠ ∅) :
    renderQuery (paramsOf query) = '?' :: joined query := by
  have asked : ¬ (paramsOf query).isEmpty := fun empty => given (Std.ExtTreeMap.isEmpty_iff.mp empty)
  rw [← marked_queryOf (fun p member => full_paramsOf query p.1 p.2
    (Std.ExtTreeMap.mem_toList_iff_getElem?_eq_some.mp member)),queryOf,if_neg asked]
  rfl

/-- A printed query holds separators and characters of the query that was read. -/
theorem not_mem_joined {c : Char} {query : Text} (free : c ∉ query) (equals : c ≠ '=') (and : c ≠ '&') :
    c ∉ joined query := by
  refine Scan.not_mem_intercalate (by simpa using and) (fun piece member => ?_)
  obtain ⟨p,listed,rfl⟩ := List.mem_map.mp member
  obtain ⟨_,piece,split,rfl⟩ := mem_pairs_paramsOf.mp listed
  have absent : c ∉ piece := fun inside => free ((Scan.mem_splitOn split).2 c inside)
  have name : c ∉ before '=' piece := fun inside => absent (mem_of_mem_before inside)
  have value : c ∉ behind '=' piece := fun inside => absent (mem_of_mem_behind inside)
  simp [item,pairOf,name,value,equals]

/-- The pieces of a printed query are its pairs. -/
theorem splitOn_joined {query : Text} (given : paramsOf query ≠ ∅) :
    (joined query).splitOn '&' = (paramsOf query).pairs.map item := by
  refine List.splitOn_intercalate '&' (fun piece member => ?_) (fun nothing => ?_)
  · obtain ⟨p,listed,rfl⟩ := List.mem_map.mp member
    exact (free_pairs listed).2.2
  · exact given (pairs_paramsOf_eq_nil (List.map_eq_nil_iff.mp nothing))

theorem nodup_items (query : Text) : ((paramsOf query).pairs.map item).Nodup := by
  rw [List.Nodup,List.pairwise_map]
  refine (Multimap.nodup_of_ordered (Multimap.ordered_pairs _)).imp_of_mem ?_
  intro p p' listed listed' different same
  apply different
  rw [← pairOf_item (free_pairs listed).2.1,← pairOf_item (free_pairs listed').2.1,same]

/-- Printing a query does not add to its end. -/
theorem joined_append {query more : Text} (given : paramsOf query ≠ ∅) (free : '=' ∉ more ∧ '&' ∉ more)
    (same : joined query = query ++ more) : more = [] := by
  obtain ⟨pieces,last,split,split'⟩ := Scan.splitOn_append free.2 query
  have items := splitOn_joined given
  rw [same,split'] at items
  have printed : ∀ x ∈ pieces ++ [last ++ more], '=' ∈ x := by
    intro x member
    rw [items] at member
    obtain ⟨p,_,rfl⟩ := List.mem_map.mp member
    simp [item]
  -- the last piece is the pair of a piece that was read, and cannot be one of those before it
  have member : last ++ more ∈ (paramsOf query).pairs.map item := items ▸ by simp
  obtain ⟨p,listed,spelled⟩ := List.mem_map.mp member
  obtain ⟨_,piece,read,rfl⟩ := mem_pairs_paramsOf.mp listed
  rw [split] at read
  have distinct := nodup_items query
  rw [← items] at distinct
  rcases List.mem_append.mp read with earlier | latest
  · rw [item_pairOf (printed piece (List.mem_append_left _ earlier))] at spelled
    rw [spelled] at earlier
    exact absurd rfl ((List.nodup_append.mp distinct).2.2 _ earlier _ List.mem_cons_self)
  · obtain rfl := List.mem_singleton.mp latest
    have equals : '=' ∈ piece := by
      have whole := printed (piece ++ more) (by simp)
      exact (List.mem_append.mp whole).resolve_right free.1
    rw [item_pairOf equals] at spelled
    exact List.append_right_eq_self.mp spelled.symm

/-- A query in the form in which queries are printed. -/
structure Spelled (query : Text) : Prop where
  named : ∀ piece ∈ query.splitOn '&', '=' ∈ piece ∧ before '=' piece ≠ []
  ordered : (query.splitOn '&').Pairwise (fun piece piece' => Multimap.Precedes (pairOf piece) (pairOf piece'))

theorem paramsOf_spelled {query : Text} (spelled : Spelled query) : paramsOf query ≠ ∅ := by
  intro empty
  obtain ⟨piece,rest,split⟩ := List.exists_cons_of_ne_nil (List.splitOn_ne_nil '&' query)
  have listed : piece ∈ query.splitOn '&' := split ▸ List.mem_cons_self
  exact (spelled.named piece listed).2 ((paramsOf_eq_empty_iff query).mp empty piece listed)

theorem joined_iff {query : Text} (given : paramsOf query ≠ ∅) : joined query = query ↔ Spelled query := by
  constructor
  · intro same
    have items := splitOn_joined given
    rw [same] at items
    constructor
    · intro piece member
      rw [items] at member
      obtain ⟨p,listed,rfl⟩ := List.mem_map.mp member
      obtain ⟨named,free,-⟩ := free_pairs listed
      refine ⟨by simp [item],?_⟩
      rw [item,before_mark free]
      exact named
    · rw [items,List.pairwise_map]
      refine (Multimap.ordered_pairs _).imp_of_mem (fun {p p'} listed listed' before => ?_)
      rw [pairOf_item (free_pairs listed).2.1,pairOf_item (free_pairs listed').2.1]
      exact before
  · intro spelled
    have members : ∀ p, p ∈ (query.splitOn '&').map pairOf ↔ p ∈ (paramsOf query).pairs := by
      intro p
      rw [mem_pairs_paramsOf,List.mem_map]
      constructor
      · rintro ⟨piece,listed,rfl⟩
        exact ⟨(spelled.named piece listed).2,piece,listed,rfl⟩
      · rintro ⟨_,there⟩
        exact there
    have pairs := Multimap.eq_pairs (List.pairwise_map.mpr spelled.ordered) members
    have items : (paramsOf query).pairs.map item = query.splitOn '&' := by
      rw [← pairs,List.map_map]
      refine (List.map_congr_left (fun piece listed => ?_)).trans (List.map_id _)
      exact item_pairOf (spelled.named piece listed).1
    rw [joined,items,List.intercalate_splitOn]

end LicodeClient.HttpUrl
