import LicodeClient.Url.Accessors
import LicodeClient.Url.Pieces

/-!
Whether a printed url is printed the same again after it was parsed. Behind the
authority the printer writes the path, the query and the fragment (the tail), and
the parser finds them by searches over the whole text. The tail comes back as it
was when the marks and slashes that the searches meet first are those that the
printer wrote, there is a path at all, and no blank is trimmed from the end; where
that fails, a tail comes back only if dots happen to undo what was misread
(`stable_iff`).
-/
namespace LicodeClient.HttpUrl
open Positions (before behind between before_self behind_nil before_append behind_append before_mark behind_mark
  before_behind not_mem_before mem_of_mem_before mem_of_mem_behind before_append_mem behind_append_mem mark_inj)
open HttpUrl.Builder

/-- The path that is printed after a text was read behind an authority. -/
def rereadPath (host port front : Text) : Text := slashed (normalized (pathOf (host ++ ':' :: port ++ front)))

/-- The printed tails that come back behind an authority when the text is parsed
    and printed again. -/
inductive Settled (host port tail : Text) : Prop where
  /-- Only a path. -/
  | path {path : Text} (slash : '/' ∉ host) (shape : tail = '/' :: path) (free : Free ['?','#'] path)
      (stay : ∀ piece ∈ path.splitOn '/', Stays piece) (ends : cut tail = tail)
  /-- A path and a fragment without a question mark. -/
  | fragment {path fragment : Text} (slash : '/' ∉ host) (shape : tail = '/' :: (path ++ '#' :: fragment))
      (free : Free ['?','#'] path) (stay : ∀ piece ∈ path.splitOn '/', Stays piece) (given : fragment ≠ [])
      (plain : '?' ∉ fragment) (ends : cut tail = tail)
  /-- A path, parameters in the order of the printer, and maybe a fragment. -/
  | query {path rest : Text} (slash : '/' ∉ host) (shape : tail = '/' :: (path ++ '?' :: rest))
      (free : Free ['?','#'] path) (stay : ∀ piece ∈ path.splitOn '/', Stays piece)
      (spelled : Spelled (before '#' rest)) (given : '#' ∈ rest → behind '#' rest ≠ []) (ends : cut tail = tail)
  /-- A fragment with a question mark, so that its front is read as a part of the
      path, but its dots leave of the pieces behind the first slash those of the path,
      and no parameter is read behind the mark. -/
  | undone {path late rest : Text} {segments : List Text} (shape : tail = path ++ '#' :: (late ++ '?' :: rest))
      (free : Free ['?','#'] path) (first : '?' ∉ late)
      (nameless : ∀ piece ∈ rest.splitOn '&', before '=' piece = [])
      (slash : '/' ∈ host ++ ':' :: port ++ (path ++ '#' :: late)) (printed : path = slashed segments)
      (dots : NormalForm ((behind '/' (host ++ ':' :: port ++ (path ++ '#' :: late))).splitOn '/') segments)
      (ends : cut tail = tail)
  /-- A path that ends with blanks and is read as dots without them, behind a host with
      a slash: of the pieces from there on they leave those of the path. -/
  | trimmed {segments : List Text} (slash : '/' ∈ host) (free : Free ['?','#'] tail) (ends : cut tail ≠ tail)
      (printed : tail = slashed segments)
      (dots : NormalForm ((behind '/' host ++ ':' :: port ++ cut tail).splitOn '/') segments)

/-- The tail that is printed after a tail was read. -/
def reread (host port tail : Text) : Text :=
  rereadPath host port (leadOf tail) ++
    renderQuery (paramsOf (between '?' '#' tail)) ++ renderFragment (behind '#' tail)

/-! ### What is trimmed -/

theorem foldl_rdropWhile_dropped (cs : List Char) (s : Text) :
    ∃ t, s = cs.foldl (fun url c => url.rdropWhile (fun a => a = c)) s ++ t ∧ ∀ a ∈ t, a ∈ cs := by
  induction cs generalizing s with
  | nil => exact ⟨[],by simp,by simp⟩
  | cons c cs ih =>
    obtain ⟨t,whole,all⟩ := Scan.rdropWhile_append_dropped (fun a => decide (a = c)) s
    obtain ⟨t',whole',all'⟩ := ih (s.rdropWhile (fun a => a = c))
    refine ⟨t' ++ t,?_,?_⟩
    · rw [List.foldl_cons,← List.append_assoc,← whole',← whole]
    · intro a member
      rcases List.mem_append.mp member with later | now
      · exact List.mem_cons_of_mem _ (all' a later)
      · rw [of_decide_eq_true (all a now)]
        exact List.mem_cons_self

theorem cut_append (tail : Text) : ∃ blanks, tail = cut tail ++ blanks ∧ ∀ a ∈ blanks, a ∈ trimmed :=
  foldl_rdropWhile_dropped trimmed tail

/-- No separator is trimmed. -/
theorem free_blanks {blanks : Text} (all : ∀ a ∈ blanks, a ∈ trimmed) : Free ['/','?','#','=','&'] blanks := by
  have apart : ∀ mark ∈ ['/','?','#','=','&'], mark ∉ trimmed := Scan.forall_of_all (by decide)
  exact fun mark member inside => apart mark member (all mark inside)

/-! ### The path that is read behind an authority -/

section Tails
variable {host port tail : Text}

theorem pathOf_slash (slash : '/' ∈ host) (port front : Text) :
    pathOf (host ++ ':' :: port ++ front) = behind '/' host ++ ':' :: port ++ front := by
  have there : '/' ∈ host ++ ':' :: port ++ front := by simp [slash]
  rw [pathOf,if_pos there,List.append_assoc,behind_append_mem slash,List.append_assoc]

theorem pathOf_front (slash : '/' ∉ host) (port_free : '/' ∉ port) (path : Text) :
    pathOf (host ++ ':' :: port ++ '/' :: path) = path := by
  have there : '/' ∈ host ++ ':' :: port ++ '/' :: path := by simp
  have apart : '/' ∉ host ++ ':' :: port := by simp [slash,port_free]
  rw [pathOf,if_pos there,behind_mark apart]

/-- What is printed for the pieces behind the first slash. -/
theorem rereadPath_eq_iff {front shown : Text} (slash : '/' ∈ host ++ ':' :: port ++ front) :
    rereadPath host port front = shown ↔ ∃ segments, shown = slashed segments ∧
      NormalForm ((behind '/' (host ++ ':' :: port ++ front)).splitOn '/') segments := by
  rw [rereadPath,pathOf,if_pos slash]
  constructor
  · rintro rfl
    exact ⟨_,rfl,normalized_eq_iff.mp rfl⟩
  · rintro ⟨segments,rfl,form⟩
    rw [normalized_eq_iff.mpr form]

theorem mem_pathOf {c : Char} {s : Text} (member : c ∈ pathOf s) : c ∈ s := by
  unfold pathOf at member
  split at member
  · exact mem_of_mem_behind member
  · exact member

/-- A mark that is nowhere in front is not in the path that is read. -/
theorem not_mem_rereadPath {mark : Char} (member : mark ∈ ['?','#']) (host_free : Free ['?','#'] host)
    (port_free : Free ['/','?','#'] port) {front : Text} (absent : mark ∉ front) :
    mark ∉ rereadPath host port front := by
  have others : ∀ mark ∈ ['?','#'], mark ≠ '/' ∧ mark ≠ ':' := Scan.forall_of_all (by decide)
  obtain ⟨slash,colon⟩ := others mark member
  intro there
  rcases mem_slashed_normalized there with same | inside
  · exact slash same
  · have within := mem_pathOf inside
    simp [host_free mark member,port_free mark (List.mem_cons_of_mem _ member),colon,absent] at within

/-- A path that is printed is empty or begins with a slash. -/
theorem head_slashed {c : Char} {segments : List Text} {rest : Text} (shown : slashed segments = c :: rest) :
    c = '/' := by
  cases segments with
  | nil => cases shown
  | cons segment segments => exact (List.cons.inj shown).1.symm

theorem slashed_eq_nil {segments : List Text} (shown : slashed segments = []) : segments = [] := by
  cases segments with
  | nil => rfl
  | cons segment segments => cases shown

/-- Without a slash all is one piece, which is printed behind a slash. -/
theorem mem_slash_of_rereadPath {front shown : Text} (same : rereadPath host port front = shown)
    (begins : shown <+: front) : '/' ∈ host ++ ':' :: port ++ front := by
  by_contra absent
  have apart : '/' ∉ port ++ front := fun inside => absent (by simpa using .inr (List.mem_append.mp inside))
  rw [rereadPath,pathOf,if_neg absent,List.append_assoc,List.cons_append] at same
  cases shown with
  | nil => exact normalized_colon apart host (slashed_eq_nil same)
  | cons c rest =>
    obtain rfl := head_slashed same
    exact apart (List.mem_append_right _ (begins.subset List.mem_cons_self))

/-- A path comes back only when nothing of the host is read as a path, it is there,
    and its pieces stay. -/
theorem path_fixed (port_free : '/' ∉ port) {front : Text} (same : rereadPath host port front = front) :
    '/' ∉ host ∧ ∃ path, front = '/' :: path ∧ ∀ piece ∈ path.splitOn '/', Stays piece := by
  unfold rereadPath at same
  have slash : '/' ∉ host := by
    intro slash
    rw [pathOf_slash slash] at same
    have twice := congrArg (fun s => normalized (behind '/' host ++ ':' :: port ++ s)) same
    simp only [normalized_slashed] at twice
    exact normalized_colon port_free (behind '/' host) (List.append_left_eq_self.mp twice)
  refine ⟨slash,?_⟩
  cases front with
  | nil =>
    have apart : '/' ∉ host ++ ':' :: port ++ [] := by simp [slash,port_free]
    rw [pathOf,if_neg apart,List.append_nil] at same
    exact absurd (slashed_eq_nil same) (normalized_colon port_free host)
  | cons c path =>
    obtain rfl := head_slashed same
    rw [pathOf_front slash port_free] at same
    exact ⟨path,rfl,(slashed_normalized_iff path).mp same⟩

theorem path_comes_back (slash : '/' ∉ host) (port_free : '/' ∉ port) {path : Text}
    (stay : ∀ piece ∈ path.splitOn '/', Stays piece) : rereadPath host port ('/' :: path) = '/' :: path := by
  rw [rereadPath,pathOf_front slash port_free]
  exact (slashed_normalized_iff path).mpr stay

/-! ### The tails by their first marks -/

theorem renderFragment_given {fragment : Text} (given : fragment ≠ []) : renderFragment fragment = '#' :: fragment := by
  have named : fragment.isEmpty = false := by simpa using given
  rw [renderFragment,named,if_neg Bool.false_ne_true]

theorem reread_path (free : Free ['?','#'] tail) :
    reread host port tail = rereadPath host port tail := by
  have query : '?' ∉ tail := free '?' (by decide)
  have fragment : '#' ∉ tail := free '#' (by decide)
  have lead : leadOf tail = tail := by rw [leadOf,if_neg query,before_self fragment]
  have nothing : paramsOf [] = ∅ := rfl
  rw [reread,lead,Positions.between_nil query,behind_nil fragment,nothing,renderQuery_empty]
  simp [renderFragment]

theorem reread_fragment {front fragment : Text} (free : Free ['?','#'] front) (plain : '?' ∉ fragment) :
    reread host port (front ++ '#' :: fragment) =
      rereadPath host port front ++ renderFragment fragment := by
  have query : '?' ∉ front ++ '#' :: fragment := by simp [free '?' (by decide),plain]
  have hash : '#' ∉ front := free '#' (by decide)
  have lead : leadOf (front ++ '#' :: fragment) = front := by rw [leadOf,if_neg query,before_mark hash]
  have nothing : paramsOf [] = ∅ := rfl
  rw [reread,lead,Positions.between_nil query,behind_mark hash,nothing,renderQuery_empty,List.append_nil]

theorem reread_query {front rest : Text} (free : Free ['?','#'] front) :
    reread host port (front ++ '?' :: rest) =
      rereadPath host port front ++ renderQuery (paramsOf (before '#' rest)) ++
        renderFragment (behind '#' rest) := by
  have query : '?' ∉ front := free '?' (by decide)
  have hash : '#' ∉ front := free '#' (by decide)
  have there : '?' ∈ front ++ '?' :: rest := by simp
  have lead : leadOf (front ++ '?' :: rest) = front := by rw [leadOf,if_pos there,before_mark query]
  have asked : between '?' '#' (front ++ '?' :: rest) = before '#' rest := by
    rw [between,before_mark query,if_neg hash,behind_mark query]
  have named : behind '#' (front ++ '?' :: rest) = behind '#' rest := by
    have apart : '#' ∉ front ++ ['?'] := by simp [hash]
    have shape : front ++ '?' :: rest = (front ++ ['?']) ++ rest := by simp
    rw [shape,behind_append apart]
  rw [reread,lead,asked,named]

theorem reread_late {front late rest : Text} (free : Free ['?','#'] front) (first : '?' ∉ late) :
    reread host port (front ++ '#' :: (late ++ '?' :: rest)) =
      rereadPath host port (front ++ '#' :: late) ++ renderQuery (paramsOf rest) ++
        '#' :: (late ++ '?' :: rest) := by
  have hash : '#' ∉ front := free '#' (by decide)
  have query : '?' ∉ front ++ '#' :: late := by simp [free '?' (by decide),first]
  have shape : front ++ '#' :: (late ++ '?' :: rest) = (front ++ '#' :: late) ++ '?' :: rest := by simp
  have there : '?' ∈ front ++ '#' :: (late ++ '?' :: rest) := by simp
  have lead : leadOf (front ++ '#' :: (late ++ '?' :: rest)) = front ++ '#' :: late := by
    rw [leadOf,if_pos there,shape,before_mark query]
  have asked : between '?' '#' (front ++ '#' :: (late ++ '?' :: rest)) = rest := by
    have early : '#' ∈ front ++ '#' :: late := by simp
    rw [between,shape,before_mark query,if_pos early,behind_mark query]
  rw [reread,lead,asked,behind_mark hash,renderFragment_given (by simp)]

/-! ### The tails that come back -/

theorem free_slash {path : Text} (free : Free ['?','#'] path) : Free ['?','#'] ('/' :: path) := by
  have others : ∀ mark ∈ ['?','#'], mark ≠ '/' := Scan.forall_of_all (by decide)
  intro mark member
  simp [others mark member,free mark member]

theorem Settled.reread (settled : Settled host port tail) (port_free : Free ['/','?','#'] port) :
    reread host port (cut tail) = tail := by
  have slashless : '/' ∉ port := port_free '/' (by decide)
  cases settled with
  | path slash shape free stay ends =>
    rw [ends]
    subst shape
    rw [reread_path (free_slash free)]
    exact path_comes_back slash slashless stay
  | @fragment path fragment slash shape free stay given plain ends =>
    rw [ends]
    subst shape
    have whole : HttpUrl.reread host port ('/' :: path ++ '#' :: fragment) = _ :=
      reread_fragment (free_slash free) plain
    rw [path_comes_back slash slashless stay,renderFragment_given given] at whole
    exact whole
  | @query path rest slash shape free stay spelled given ends =>
    rw [ends]
    subst shape
    have whole : HttpUrl.reread host port ('/' :: path ++ '?' :: rest) = _ := reread_query (free_slash free)
    have params := paramsOf_spelled spelled
    rw [path_comes_back slash slashless stay,renderQuery_paramsOf params,(joined_iff params).mpr spelled] at whole
    refine whole.trans ?_
    by_cases hash : '#' ∈ rest
    · rw [renderFragment_given (given hash)]
      nth_rewrite 3 [← before_behind hash]
      simp
    · rw [behind_nil hash,before_self hash]
      simp [renderFragment]
  | @undone path late rest segments shape free first nameless slash printed dots ends =>
    rw [ends]
    subst shape
    have back := (rereadPath_eq_iff slash).mpr ⟨segments,printed,dots⟩
    rw [reread_late free first,back,(paramsOf_eq_empty_iff rest).mpr nameless,renderQuery_empty,List.append_nil]
  | @trimmed segments slash free ends printed dots =>
    have marks : Free ['?','#'] (cut tail) := by
      obtain ⟨blanks,whole,-⟩ := cut_append tail
      intro mark member inside
      exact free mark member (whole ▸ List.mem_append_left _ inside)
    rw [reread_path marks,rereadPath,pathOf_slash slash,normalized_eq_iff.mpr dots,printed]

theorem free_marks {s : Text} (query : '?' ∉ s) (hash : '#' ∉ s) : Free ['?','#'] s := by
  intro mark member
  rcases List.mem_cons.mp member with rfl | member
  · exact query
  · rw [List.mem_singleton.mp member]
    exact hash

section Returns
variable {blanks : Text}

/-- A tail without marks. -/
theorem settled_of_path (port_free : '/' ∉ port) (whole : tail = cut tail ++ blanks) (all : ∀ a ∈ blanks, a ∈ trimmed)
    (same : reread host port (cut tail) = tail) (free : Free ['?','#'] (cut tail)) : Settled host port tail := by
  have apart := free_blanks all
  have marks : Free ['?','#'] tail := by
    have query : '?' ∉ cut tail ++ blanks := by simp [free '?' (by decide),apart '?' (by decide)]
    have hash : '#' ∉ cut tail ++ blanks := by simp [free '#' (by decide),apart '#' (by decide)]
    rw [← whole] at query hash
    exact free_marks query hash
  rw [reread_path free] at same
  by_cases ends : cut tail = tail
  · rw [ends] at same
    obtain ⟨slash,path,shape,stay⟩ := path_fixed port_free same
    refine .path slash shape (fun mark member inside => ?_) stay ends
    exact marks mark member (shape ▸ List.mem_cons_of_mem _ inside)
  · suffices slash : '/' ∈ host by
      rw [rereadPath,pathOf_slash slash] at same
      exact .trimmed slash marks ends same.symm (normalized_eq_iff.mp rfl)
    -- without a slash in the host, what is printed is no longer than what was read
    by_contra slash
    cases front : cut tail with
    | nil =>
      rw [front,List.nil_append] at whole
      cases shown : tail with
      | nil => exact ends (by rw [front,shown])
      | cons c rest =>
        have begins : c = '/' := head_slashed (same.trans shown)
        refine apart '/' (by decide) ?_
        rw [← whole,shown,begins]
        exact List.mem_cons_self
    | cons c path =>
      have begins : c = '/' := by
        rw [front,List.cons_append] at whole
        exact head_slashed (same.trans whole)
      rw [front,begins,rereadPath,pathOf_front slash port_free] at same
      have short := length_slashed_normalized path
      have size := congrArg List.length whole
      rw [same] at short
      rw [front,List.length_append,List.length_cons] at size
      have none : blanks = [] := List.length_eq_zero_iff.mp (by omega)
      rw [none,List.append_nil] at whole
      exact ends whole.symm

/-- A tail whose only mark is that of its fragment. -/
theorem settled_of_fragment (host_free : Free ['?','#'] host) (port_free : Free ['/','?','#'] port)
    (whole : tail = cut tail ++ blanks) (same : reread host port (cut tail) = tail) {front fragment : Text}
    (shape : cut tail = front ++ '#' :: fragment) (free : Free ['?','#'] front) (plain : '?' ∉ fragment) :
    Settled host port tail := by
  have hash : '#' ∉ front := free '#' (by decide)
  have path := not_mem_rereadPath (by decide) host_free port_free hash
  have printed : rereadPath host port front ++ renderFragment fragment = front ++ '#' :: (fragment ++ blanks) := by
    rw [← reread_fragment free plain,← shape,same,whole,shape]
    simp
  have given : fragment ≠ [] := by
    rintro rfl
    have there : '#' ∈ rereadPath host port front ++ renderFragment [] := printed ▸ by simp
    exact path (by simpa [renderFragment] using there)
  rw [renderFragment_given given] at printed
  obtain ⟨back,rest⟩ := mark_inj path hash printed
  have none : blanks = [] := List.append_right_eq_self.mp rest.symm
  rw [none,List.append_nil] at whole
  obtain ⟨slash,path,rfl,stay⟩ := path_fixed (port_free '/' (by decide)) back
  refine .fragment slash (whole.trans shape) (fun mark member inside => ?_) stay given plain whole.symm
  exact free mark member (List.mem_cons_of_mem _ inside)

/-- A query and a fragment that come back, and nothing was trimmed from them. -/
theorem query_fixed {rest : Text} (params : paramsOf (before '#' rest) ≠ ∅) (all : ∀ a ∈ blanks, a ∈ trimmed)
    (same : joined (before '#' rest) ++ renderFragment (behind '#' rest) = rest ++ blanks) :
    blanks = [] ∧ Spelled (before '#' rest) ∧ ('#' ∈ rest → behind '#' rest ≠ []) := by
  have apart := free_blanks all
  by_cases number : '#' ∈ rest
  · have absent : '#' ∉ joined (before '#' rest) := not_mem_joined (not_mem_before '#' rest) (by decide) (by decide)
    have printed : joined (before '#' rest) ++ renderFragment (behind '#' rest) =
        before '#' rest ++ '#' :: (behind '#' rest ++ blanks) := by
      rw [same,← List.cons_append,← List.append_assoc,before_behind number]
    have given : behind '#' rest ≠ [] := by
      intro nothing
      have there : '#' ∈ joined (before '#' rest) ++ renderFragment (behind '#' rest) := printed ▸ by simp
      rw [nothing] at there
      exact absent (by simpa [renderFragment] using there)
    rw [renderFragment_given given] at printed
    obtain ⟨query,fragment⟩ := mark_inj absent (not_mem_before '#' rest) printed
    exact ⟨List.append_right_eq_self.mp fragment.symm,(joined_iff params).mp query,fun _ => given⟩
  · rw [behind_nil number,before_self number] at same
    rw [before_self number] at params ⊢
    have printed : joined rest = rest ++ blanks := by simpa [renderFragment] using same
    have none := joined_append params ⟨apart '=' (by decide),apart '&' (by decide)⟩ printed
    rw [none,List.append_nil] at printed
    exact ⟨none,(joined_iff params).mp printed,fun there => absurd there number⟩

/-- A tail whose first mark is that of its query. -/
theorem settled_of_query (host_free : Free ['?','#'] host) (port_free : Free ['/','?','#'] port)
    (whole : tail = cut tail ++ blanks) (all : ∀ a ∈ blanks, a ∈ trimmed)
    (same : reread host port (cut tail) = tail) {front rest : Text} (shape : cut tail = front ++ '?' :: rest)
    (free : Free ['?','#'] front) : Settled host port tail := by
  have query : '?' ∉ front := free '?' (by decide)
  have path := not_mem_rereadPath (by decide) host_free port_free query
  have printed : rereadPath host port front ++
      (renderQuery (paramsOf (before '#' rest)) ++ renderFragment (behind '#' rest)) =
        front ++ '?' :: (rest ++ blanks) := by
    rw [← List.append_assoc,← reread_query free,← shape,same,whole,shape]
    simp
  have params : paramsOf (before '#' rest) ≠ ∅ := by
    intro none
    rw [none,renderQuery_empty,List.nil_append] at printed
    have hash : '#' ∉ front := free '#' (by decide)
    have path' := not_mem_rereadPath (by decide) host_free port_free hash
    -- before the first number sign there is a question mark on one side only
    have there : '?' ∈ before '#' (front ++ '?' :: (rest ++ blanks)) := by
      have shape : front ++ '?' :: (rest ++ blanks) = (front ++ ['?']) ++ (rest ++ blanks) := by simp
      rw [shape,before_append (by simp [hash])]
      simp
    have absent : '?' ∉ before '#' (rereadPath host port front ++ renderFragment (behind '#' rest)) := by
      rw [before_append path',renderFragment]
      split <;> simp [path,before]
    rw [printed] at absent
    exact absent there
  rw [renderQuery_paramsOf params,List.cons_append] at printed
  obtain ⟨back,tails⟩ := mark_inj path query printed
  obtain ⟨none,spelled,given⟩ := query_fixed params all tails
  rw [none,List.append_nil] at whole
  obtain ⟨slash,path,rfl,stay⟩ := path_fixed (port_free '/' (by decide)) back
  refine .query slash (whole.trans shape) (fun mark member inside => ?_) stay spelled given whole.symm
  exact free mark member (List.mem_cons_of_mem _ inside)

/-- A tail with a question mark behind a number sign. -/
theorem settled_of_late (whole : tail = cut tail ++ blanks) (all : ∀ a ∈ blanks, a ∈ trimmed)
    (same : reread host port (cut tail) = tail) {front late rest : Text}
    (shape : cut tail = front ++ '#' :: (late ++ '?' :: rest)) (free : Free ['?','#'] front) (first : '?' ∉ late) :
    Settled host port tail := by
  have hash : '#' ∉ front := free '#' (by decide)
  have printed : rereadPath host port (front ++ '#' :: late) ++ renderQuery (paramsOf rest) ++
      '#' :: (late ++ '?' :: rest) = front ++ '#' :: (late ++ '?' :: rest ++ blanks) := by
    rw [← reread_late free first,← shape,same,whole,shape]
    simp
  -- the number signs behind the first one are on both sides, so that none stands before it
  have alone := Positions.not_mem_of_same_end hash (free_blanks all '#' (by decide)) printed
  obtain ⟨back,tails⟩ := mark_inj alone hash printed
  have none : blanks = [] := List.append_right_eq_self.mp tails.symm
  have nameless : paramsOf rest = ∅ := by
    by_contra params
    rw [renderQuery_paramsOf params] at back
    have there : '?' ∈ front := back ▸ by simp
    exact free '?' (by decide) there
  rw [nameless,renderQuery_empty,List.append_nil] at back
  rw [none,List.append_nil] at whole
  have slash := mem_slash_of_rereadPath back (List.prefix_append front _)
  obtain ⟨segments,shown,dots⟩ := (rereadPath_eq_iff slash).mp back
  exact .undone (whole.trans shape) free first ((paramsOf_eq_empty_iff rest).mp nameless) slash shown dots whole.symm

end Returns

/-- The tails that come back are the settled ones. -/
theorem reread_iff (host_free : Free ['?','#'] host) (port_free : Free ['/','?','#'] port) :
    reread host port (cut tail) = tail ↔ Settled host port tail := by
  refine ⟨fun same => ?_,fun settled => settled.reread port_free⟩
  obtain ⟨blanks,whole,all⟩ := cut_append tail
  by_cases query : '?' ∈ cut tail
  · have shape := (before_behind query).symm
    have unasked := not_mem_before '?' (cut tail)
    by_cases early : '#' ∈ before '?' (cut tail)
    · have first : '?' ∉ before '#' (before '?' (cut tail)) := fun inside => unasked (mem_of_mem_before inside)
      have late : '?' ∉ behind '#' (before '?' (cut tail)) := fun inside => unasked (mem_of_mem_behind inside)
      rw [← before_behind early,List.append_assoc,List.cons_append] at shape
      exact settled_of_late whole all same shape (free_marks first (not_mem_before '#' _)) late
    · exact settled_of_query host_free port_free whole all same shape (free_marks unasked early)
  · by_cases fragment : '#' ∈ cut tail
    · have first : '?' ∉ before '#' (cut tail) := fun inside => query (mem_of_mem_before inside)
      have plain : '?' ∉ behind '#' (cut tail) := fun inside => query (mem_of_mem_behind inside)
      exact settled_of_fragment host_free port_free whole same (before_behind fragment).symm
        (free_marks first (not_mem_before '#' _)) plain
    · exact settled_of_path (port_free '/' (by decide)) whole all same (free_marks query fragment)

end Tails

/-! ### Printed ports -/

/-- The number that is printed for a port. -/
def shownPort (scheme : Text) (port : Int32) : Int32 := if port = -1 then defaultPort scheme else port

theorem renderPort_shownPort {scheme : Text} (known : scheme = lit "http" ∨ scheme = lit "https") (port : Int32) :
    renderPort scheme (shownPort scheme port) = renderPort scheme port := by
  have set : shownPort scheme port ≠ -1 := by
    unfold shownPort
    split
    · rcases known with rfl | rfl <;> decide
    · assumption
  rw [renderPort,if_neg set]
  rfl

/-- A printed port is printed the same after it was read. -/
theorem portOf_rendered {scheme rest : Text} (known : scheme = lit "http" ∨ scheme = lit "https") (port : Int32)
    (stops : Scan.Stops Char.isDigit rest) :
    ∃ port', portOf scheme (renderPort scheme port ++ rest) = .ok port' ∧
      renderPort scheme port' = renderPort scheme port := by
  refine ⟨shownPort scheme port,?_,renderPort_shownPort known port⟩
  have given : (renderPort scheme port ++ rest).isEmpty = false := by
    obtain ⟨c,more,whole,_⟩ := Json.head_decimal (shownPort scheme port).toInt
    have shown : renderPort scheme port = c :: more := whole
    rw [shown]
    rfl
  rw [portOf,given,if_neg Bool.false_ne_true]
  exact atoi_decimal_append (shownPort scheme port) stops

/-! ### Parsing a printed url -/

theorem parse_accepted_iff {url : Text} {prior b : Builder} :
    (parse url).run prior = .ok true b ↔
      7 < url.length ∧ ∃ scheme port, schemeOf (before ':' (trim url)) = some scheme ∧
        scheme.length + 3 ≤ (trim url).length ∧ hostPathOf scheme (trim url) ≠ [] ∧
        portOf scheme (between ':' '/' (hostPathOf scheme (trim url))) = .ok port ∧
        b = stored scheme (trim url) port := by
  rw [run_parse,outcome]
  constructor
  · intro run
    split at run
    · cases run
    · next long =>
      refine ⟨Nat.not_le.mp long,?_⟩
      cases known : schemeOf (before ':' (trim url)) with
      | none =>
        rw [known] at run
        cases run
      | some scheme =>
        rw [known,Option.elim_some,partsOutcome] at run
        split at run
        · cases run
        · next enough =>
          split at run
          · cases run
          · next given =>
            split at run
            · next port fits =>
              cases run
              exact ⟨scheme,port,rfl,Nat.not_lt.mp enough,given,fits,rfl⟩
            · cases run
  · rintro ⟨long,scheme,port,known,enough,given,fits,rfl⟩
    rw [if_neg (Nat.not_le.mpr long),known,Option.elim_some,partsOutcome,if_neg (Nat.not_lt.mpr enough),if_neg given,
      fits]

/-- What is printed behind the authority of the url that a text gives. -/
def tailOf (scheme url : Text) : Text :=
  slashed (normalized (pathOf (hostPathOf scheme url))) ++ renderQuery (paramsOf (between '?' '#' url)) ++
    renderFragment (behind '#' url)

theorem toString_stored (scheme url : Text) (port : Int32) :
    (stored scheme url port).toString =
      (scheme ++ lit "://") ++
        (hostOf (hostPathOf scheme url) ++ ':' :: renderPort scheme port ++ tailOf scheme url) := by
  have plain : ':' ∉ (stored scheme url port).host := not_mem_hostOf _
  rw [Builder.toString,if_neg plain]
  simp only [stored,renderPort,tailOf,slashed,List.append_assoc,List.cons_append]
  rfl

theorem head_tailOf (scheme url : Text) : ∀ c ∈ (tailOf scheme url).head?, c = '/' ∨ c = '?' ∨ c = '#' := by
  unfold tailOf
  cases normalized (pathOf (hostPathOf scheme url)) with
  | cons segment rest => simp [slashed]
  | nil =>
    unfold Builder.renderQuery Builder.renderFragment
    split
    · split <;> simp [slashed]
    · simp [slashed]

section Printed
variable {scheme host tail : Text} {port : Int32}

/-- The text behind the slashes of the scheme when a printed url was trimmed. -/
def body (host port tail : Text) : Text := host ++ ':' :: port ++ cut tail

theorem renderPort_ne_nil (scheme : Text) (port : Int32) : renderPort scheme port ≠ [] := by
  obtain ⟨c,rest,whole,_⟩ := Json.head_decimal (shownPort scheme port).toInt
  exact fun empty => List.cons_ne_nil c rest (whole.symm.trans empty)

/-- Only the end of the tail is trimmed. -/
theorem trim_printed (known : scheme = lit "http" ∨ scheme = lit "https") :
    trim ((scheme ++ lit "://") ++ (host ++ ':' :: renderPort scheme port ++ tail)) =
      (scheme ++ lit "://") ++ body host (renderPort scheme port) tail := by
  have ends : ∀ a ∈ ((scheme ++ lit "://") ++ (host ++ ':' :: renderPort scheme port)).getLast?, a ∉ trimmed := by
    intro a last
    have given : renderPort scheme port ≠ [] := renderPort_ne_nil scheme port
    have shape : (scheme ++ lit "://") ++ (host ++ ':' :: renderPort scheme port) =
        ((scheme ++ lit "://") ++ (host ++ [':'])) ++ renderPort scheme port := by simp
    rw [shape,List.getLast?_append_of_ne_nil _ given] at last
    have others : ∀ a ∈ trimmed, a.isDigit = false ∧ a ≠ '-' := Scan.forall_of_all (by decide)
    intro blank
    obtain ⟨digit,minus⟩ := others a blank
    rcases word_renderPort (List.mem_of_getLast? last) with number | sign
    · rw [number] at digit
      cases digit
    · exact minus sign
  rw [trim_lead known,← List.append_assoc,cut_front ends,List.append_assoc]
  rfl

theorem schemeOf_printed (known : scheme = lit "http" ∨ scheme = lit "https") (rest : Text) :
    schemeOf (before ':' ((scheme ++ lit "://") ++ rest)) = some scheme := by
  rcases known with rfl | rfl
  · rfl
  · rfl

theorem free_scheme (known : scheme = lit "http" ∨ scheme = lit "https") :
    '?' ∉ scheme ++ lit "://" ∧ '#' ∉ scheme ++ lit "://" :=
  ⟨not_mem_slashes (.inr known) (by decide),not_mem_slashes (.inr known) (by decide)⟩

theorem hostPathOf_printed (known : scheme = lit "http" ∨ scheme = lit "https") (rest : Text) :
    hostPathOf scheme ((scheme ++ lit "://") ++ rest) = leadOf rest := by
  have start : (scheme ++ lit "://").length = scheme.length + 3 := by simp [Components.slashes_eq]
  have within : scheme.length + 3 ≤ ((scheme ++ lit "://") ++ leadOf rest).length := by
    rw [List.length_append,start]
    omega
  rw [hostPathOf,leadOf_lead (free_scheme known),if_pos within,← start,List.drop_left]

/-- A printed url is printed the same again when each of its parts is. -/
theorem printed_again_iff (known : scheme = lit "http" ∨ scheme = lit "https") (port : Int32) (plain : ':' ∉ host)
    (head : ∀ c ∈ tail.head?, c = '/' ∨ c = '?' ∨ c = '#') (next : Builder) :
    (∃ b', (parse ((scheme ++ lit "://") ++ (host ++ ':' :: renderPort scheme port ++ tail))).run next = .ok true b' ∧
        b'.toString = (scheme ++ lit "://") ++ (host ++ ':' :: renderPort scheme port ++ tail)) ↔
      leadOf (body host (renderPort scheme port) tail) ≠ [] ∧ ∃ port',
        portOf scheme (between ':' '/' (leadOf (body host (renderPort scheme port) tail))) = .ok port' ∧
          hostOf (leadOf (body host (renderPort scheme port) tail)) = host ∧
          renderPort scheme port' = renderPort scheme port ∧
          tailOf scheme ((scheme ++ lit "://") ++ body host (renderPort scheme port) tail) = tail := by
  have marks : ∀ s : Text, (∀ c ∈ s.head?, c = '/' ∨ c = '?' ∨ c = '#') → Scan.Stops Char.isDigit s := by
    intro s head c first
    rcases head c first with rfl | rfl | rfl <;> rfl
  constructor
  · rintro ⟨b',run,same⟩
    obtain ⟨_,scheme',port',known',_,given,fits,rfl⟩ := parse_accepted_iff.mp run
    rw [trim_printed known] at known' given fits same
    rw [schemeOf_printed known] at known'
    obtain rfl := Option.some.inj known'
    rw [toString_stored,hostPathOf_printed known] at same
    rw [hostPathOf_printed known] at given fits
    have shape : ∀ a b c : Text, a ++ ':' :: b ++ c = a ++ ':' :: (b ++ c) := by simp
    have authorities := List.append_cancel_left same
    rw [shape,shape] at authorities
    obtain ⟨hosts,rest⟩ := mark_inj (not_mem_hostOf _) plain authorities
    obtain ⟨ports,tails⟩ := Json.decimal_inj (marks _ (head_tailOf _ _)) (marks _ head) rest
    exact ⟨given,port',fits,hosts,congrArg Json.decimal ports,tails⟩
  · rintro ⟨given,port',fits,hosts,ports,tails⟩
    refine ⟨stored scheme ((scheme ++ lit "://") ++ body host (renderPort scheme port) tail) port',?_,?_⟩
    · refine parse_accepted_iff.mpr ⟨?_,scheme,port',?_⟩
      · have size := (length_lead known (host ++ ':' :: renderPort scheme port ++ tail)).2
        simp only [List.length_append,List.length_cons] at size ⊢
        omega
      · rw [trim_printed known,schemeOf_printed known,hostPathOf_printed known]
        exact ⟨rfl,(length_lead known _).1,given,fits,rfl⟩
    · rw [toString_stored,hostPathOf_printed known,hosts,ports,tails]

/-- The host comes back only when the path does not end inside of it. -/
theorem host_fixed {port tail : Text} (plain : ':' ∉ host) (same : hostOf (leadOf (body host port tail)) = host) :
    '?' ∉ host := by
  intro query
  have there : '?' ∈ body host port tail := by simp [body,query]
  rw [leadOf,if_pos there,body,List.append_assoc,before_append_mem query] at same
  -- the front of the host has no colon, and is then cut at a slash, never longer
  have colon : ':' ∉ before '?' host := fun inside => plain (mem_of_mem_before inside)
  rw [hostOf,if_neg colon] at same
  have cuts : (before '/' (before '?' host)).length ≤ (before '?' host).length := (List.takeWhile_prefix _).length_le
  have sizes := congrArg List.length (before_behind query)
  rw [same] at cuts
  rw [List.length_append,List.length_cons] at sizes
  omega

/-- A fragment that begins in the host is longer than any tail. -/
theorem no_hash_in_host (known : scheme = lit "http" ∨ scheme = lit "https") {port tail : Text}
    (same : tailOf scheme ((scheme ++ lit "://") ++ body host port tail) = tail) : '#' ∉ host := by
  intro hash
  obtain ⟨blanks,whole,all⟩ := cut_append tail
  have named : behind '#' ((scheme ++ lit "://") ++ body host port tail) =
      behind '#' host ++ ':' :: port ++ cut tail := by
    rw [behind_append (free_scheme known).2,body,List.append_assoc,behind_append_mem hash,List.append_assoc]
  have clear := free_blanks all '#' (by decide)
  have counts := congrArg (List.count '#') same
  have total : List.count '#' tail = List.count '#' (cut tail ++ blanks) := congrArg (List.count '#') whole
  rw [tailOf,named,renderFragment_given (by simp),total] at counts
  simp only [List.count_append,List.count_cons_self,List.count_eq_zero.mpr clear] at counts
  omega

theorem tailOf_printed (known : scheme = lit "http" ∨ scheme = lit "https") {port tail : Text}
    (host_free : Free ['?','#'] host) (port_free : Free ['/','?','#'] port) :
    tailOf scheme ((scheme ++ lit "://") ++ body host port tail) = reread host port (cut tail) := by
  have free : '?' ∉ host ++ ':' :: port ∧ '#' ∉ host ++ ':' :: port := by
    constructor
    · simp [host_free '?' (by decide),port_free '?' (by decide)]
    · simp [host_free '#' (by decide),port_free '#' (by decide)]
  rw [tailOf,hostPathOf_printed known,between_lead (free_scheme known),behind_append (free_scheme known).2,body,
    leadOf_lead free,between_lead free,behind_append free.2]
  rfl

end Printed

/-! ### Stable texts -/

/-- What `ToString` prints after `Parse` accepted a text is accepted by `Parse` and
    printed the same again. -/
def Stable (url : Text) (prior next : Builder) : Prop :=
  ∀ b, (parse url).run prior = .ok true b →
    ∃ b', (parse b.toString).run next = .ok true b' ∧ b'.toString = b.toString

/-- The texts whose host has no mark and whose path, query and fragment are printed
    as they will be read. -/
inductive Canonical (url : Text) : Prop where
  | intro {scheme : Text} {port : Int32} (known : schemeOf (before ':' (trim url)) = some scheme)
      (fits : portOf scheme (between ':' '/' (hostPathOf scheme (trim url))) = .ok port)
      (host : Free ['?','#'] (hostOf (hostPathOf scheme (trim url))))
      (tail : Settled (hostOf (hostPathOf scheme (trim url))) (renderPort scheme port) (tailOf scheme (trim url)))

theorem stops_of_front {p : Char → Bool} {s t : Text} (front : s <+: t) (stops : Scan.Stops p t) : Scan.Stops p s := by
  intro c head
  obtain ⟨rest,rfl⟩ := front
  exact stops c (by simp [List.head?_append,Option.mem_def.mp head])

/-- The port of an authority is printed the same after it was read up to what
    follows. -/
theorem port_comes_back {scheme host front : Text} (known : scheme = lit "http" ∨ scheme = lit "https") (port : Int32)
    (plain : ':' ∉ host) (stops : Scan.Stops Char.isDigit front) :
    ∃ port', portOf scheme (between ':' '/' (host ++ ':' :: renderPort scheme port ++ front)) = .ok port' ∧
      renderPort scheme port' = renderPort scheme port := by
  have slash : '/' ∉ renderPort scheme port := free_renderPort scheme port '/' (by decide)
  have shape : host ++ ':' :: renderPort scheme port ++ front = host ++ ':' :: (renderPort scheme port ++ front) := by
    simp
  rw [shape,between,before_mark plain,behind_mark plain]
  split
  · exact portOf_rendered known port stops
  · rw [before_append slash]
    exact portOf_rendered known port (stops_of_front (List.takeWhile_prefix _) stops)

/-- Host and port are found again in front of a tail. -/
theorem authority_comes_back {scheme host tail : Text} (known : scheme = lit "http" ∨ scheme = lit "https")
    (port : Int32) (plain : ':' ∉ host) (host_free : Free ['?','#'] host)
    (head : ∀ c ∈ tail.head?, c = '/' ∨ c = '?' ∨ c = '#') :
    leadOf (body host (renderPort scheme port) tail) ≠ [] ∧ ∃ port',
      portOf scheme (between ':' '/' (leadOf (body host (renderPort scheme port) tail))) = .ok port' ∧
        hostOf (leadOf (body host (renderPort scheme port) tail)) = host ∧
        renderPort scheme port' = renderPort scheme port := by
  have rendered := free_renderPort scheme port
  have lead : leadOf (body host (renderPort scheme port) tail) =
      host ++ ':' :: renderPort scheme port ++ leadOf (cut tail) := by
    refine leadOf_lead ⟨?_,?_⟩ _
    · simp [host_free '?' (by decide),rendered '?' (by decide)]
    · simp [host_free '#' (by decide),rendered '#' (by decide)]
  have stops : Scan.Stops Char.isDigit (leadOf (cut tail)) := by
    obtain ⟨more,split,-⟩ := leadOf_append (cut tail)
    obtain ⟨blanks,whole,-⟩ := cut_append tail
    have front : leadOf (cut tail) <+: tail := List.IsPrefix.trans ⟨more,split.symm⟩ ⟨blanks,whole.symm⟩
    refine stops_of_front front ?_
    intro c mark
    rcases head c mark with rfl | rfl | rfl <;> rfl
  obtain ⟨port',read,same⟩ := port_comes_back known port plain stops
  rw [lead]
  refine ⟨by simp,port',read,?_,same⟩
  have colon : ':' ∈ host ++ ':' :: renderPort scheme port ++ leadOf (cut tail) := by simp
  rw [hostOf,if_pos colon,List.append_assoc]
  exact before_mark plain _

/-- A text that `Parse` accepts is stable exactly when it is canonical in this
    sense. -/
theorem stable_iff {url : Text} {prior b : Builder} (accepted : (parse url).run prior = .ok true b) (next : Builder) :
    Stable url prior next ↔ Canonical url := by
  obtain ⟨_,scheme,port,named,_,_,fits,rfl⟩ := parse_accepted_iff.mp accepted
  have known := schemeOf_known named
  have plain := not_mem_hostOf (hostPathOf scheme (trim url))
  have head := head_tailOf scheme (trim url)
  have again := printed_again_iff known port plain head next
  have rendered := free_renderPort scheme port
  constructor
  · intro stable
    obtain ⟨b',run,same⟩ := stable _ accepted
    rw [toString_stored] at run same
    obtain ⟨_,_,_,hosts,_,tails⟩ := again.mp ⟨b',run,same⟩
    have host := free_marks (host_fixed plain hosts) (no_hash_in_host known tails)
    rw [tailOf_printed known host rendered] at tails
    exact .intro named fits host ((reread_iff host rendered).mp tails)
  · rintro ⟨named',fits',host,settled⟩ b' accepted'
    obtain rfl := Option.some.inj (named.symm.trans named')
    obtain rfl := Except.ok.inj (fits.symm.trans fits')
    rw [accepted] at accepted'
    cases accepted'
    rw [toString_stored]
    obtain ⟨given,port',read,hosts,same⟩ := authority_comes_back known port plain host head
    refine again.mpr ⟨given,port',read,hosts,same,?_⟩
    rw [tailOf_printed known host rendered]
    exact settled.reread rendered

theorem stable_single : ∃ b, (parse (lit "http://h/a")).run {} = .ok true b ∧ Stable (lit "http://h/a") {} {} := by
  have accepted : (parse (lit "http://h/a")).run {} =
      .ok true { scheme := lit "http", host := lit "h", port := 80, encodedPathSegments := [lit "a"] } := rfl
  have named : schemeOf (before ':' (trim (lit "http://h/a"))) = some (lit "http") := by decide
  have fits : portOf (lit "http") (between ':' '/' (hostPathOf (lit "http") (trim (lit "http://h/a")))) = .ok 80 := rfl
  have shape : tailOf (lit "http") (trim (lit "http://h/a")) = '/' :: lit "a" := by decide
  have stay : ∀ piece ∈ (lit "a").splitOn '/', Stays piece := by
    intro piece member
    rw [List.splitOn_eq_singleton (by decide),List.mem_singleton] at member
    subst member
    exact stays_of_mem (c := 'a') (by decide) (by decide)
  have ends : cut (tailOf (lit "http") (trim (lit "http://h/a"))) = tailOf (lit "http") (trim (lit "http://h/a")) := by
    rw [shape]
    decide
  refine ⟨_,accepted,(stable_iff accepted {}).mpr (.intro named fits (by decide) ?_)⟩
  exact .path (by decide) shape (by decide) stay ends

/-- The slash of `http://h/` is not printed, and the authority is then read as the
    path. -/
theorem stable_fails :
    ∃ b b', (parse (lit "http://h/")).run {} = .ok true b ∧ b.toString = lit "http://h:80" ∧
      (parse (lit "http://h:80")).run {} = .ok true b' ∧ b'.toString = lit "http://h:80/h:80" ∧
      ¬ Stable (lit "http://h/") {} {} := by
  refine ⟨_,_,rfl,by decide,rfl,by decide,fun stable => ?_⟩
  obtain ⟨b',run,same⟩ := stable _ rfl
  cases run
  exact absurd same (by decide)

end LicodeClient.HttpUrl
