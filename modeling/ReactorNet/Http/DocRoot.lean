import ReactorNet.Http.Headers
import ReactorNet.Http.RequestLine
import ReactorNet.Lib.Path

/-!
# ReactorNet — requests and the document root

The server opens `docRoot_ + req.path()`. The parser refuses a path with two dots in a row,
so no accepted path goes up. It does not ask for a slash at the front, and a path without
one is glued to the last name of the document root: it names a sibling.

* `accepted_no_dotdot` — no segment of an accepted path is `".."`.
* `accepted_inside_iff` — accepted paths stay under the document root exactly if the target
  starts with a spelling of the slash.
-/

namespace ReactorNet

open Lib

namespace HttpRequest

/-- What the second path names is the document root or lies below it. A path is a C string
where it is opened. -/
def Inside (cwd : List Bytes) (docRoot filePath : Bytes) : Prop :=
  resolve cwd (cStr docRoot) <+: resolve cwd (cStr filePath)

instance (cwd : List Bytes) (docRoot filePath : Bytes) : Decidable (Inside cwd docRoot filePath) :=
  inferInstanceAs (Decidable (_ <+: _))

/-- A path that stays under every document root: it starts with a slash, does not go up, and
names something inside. An empty document root is not a name. -/
structure Confined (path : Bytes) : Prop where
  slash : [0x2F] <+: path
  noDotDot : dotdot ∉ segments path
  inside : ∀ cwd docRoot, docRoot ≠ [] → Inside cwd docRoot (docRoot ++ path)

/-- The request line has a target that starts with a spelling of the slash. -/
def SlashTarget (s : Bytes) : Prop :=
  ∃ line target version, IsFirstLine line s ∧ IsRequestLine line methodGet target version ∧
    ∃ d ∈ slashSpellings, d <+: target

/-- The path of an accepted request, as it was sent. -/
theorem accepted_path {r r' : HttpRequest} {s : Bytes} (h : r.parseRequest s = .ok (true, r')) :
    ∃ line target version, IsFirstLine line s ∧ IsRequestLine line methodGet target version ∧
      ¬ SpellsDotDot (targetPath target) ∧ r'.path = defaultPath (urlDecode (targetPath target)) := by
  obtain ⟨line, read, scan, hLine, hRead, -, -, rfl⟩ := parseRequest_eq_true.mp h
  obtain ⟨target, version, query, m, n, hParts, hSafe, rfl⟩ := parseRequestLine_true hRead
  exact ⟨line, target, version, hLine, hParts, hSafe, rfl⟩

variable {path : Bytes}

theorem dotdot_infix_defaultPath (h : dotdot <:+: defaultPath path) : dotdot <:+: path := by
  rw [defaultPath] at h
  split_ifs at h
  · exact absurd h (by decide)
  · exact h

theorem slash_defaultPath : [0x2F] <+: defaultPath path ↔ [0x2F] <+: path := by
  rw [defaultPath]
  split_ifs with h
  · subst h
    decide
  · rfl

/-- **Nothing goes up.** -/
theorem accepted_no_dotdot {r r' : HttpRequest} {s : Bytes}
    (h : r.parseRequest s = .ok (true, r')) : ¬ dotdot <:+: r'.path := by
  obtain ⟨line, target, version, -, -, hSafe, hPath⟩ := accepted_path h
  intro hDots
  rw [hPath] at hDots
  exact hSafe (dotdot_infix_urlDecode.mp (dotdot_infix_defaultPath hDots))

/-- A path below the document root, as the C library reads it. -/
theorem inside_of_slash (hSlash : [0x2F] <+: path) (hDots : ¬ dotdot <:+: path) (cwd : List Bytes)
    {docRoot : Bytes} (hRoot : docRoot ≠ []) : Inside cwd docRoot (docRoot ++ path) := by
  obtain ⟨rest, rfl⟩ := hSlash
  rw [Inside]
  by_cases hNul : 0 ∈ docRoot
  · -- the name ends inside the document root
    have hCut : cStr (docRoot ++ ([0x2F] ++ rest)) = cStr docRoot := by
      rw [cStr, cStr, List.takeWhile_append, if_neg fun hLength => zero_notMem_cStr docRoot ?_]
      have hStart : cStr docRoot <+: docRoot := List.takeWhile_prefix _
      rwa [show cStr docRoot = docRoot from hStart.eq_of_length hLength]
    rw [hCut]
  · have hPath : cStr (docRoot ++ ([0x2F] ++ rest)) = docRoot ++ 0x2F :: cStr rest := by
      rw [cStr, List.takeWhile_append_of_pos fun b hb => ?_]
      · rfl
      · have hne : b ≠ 0 := fun hEq => hNul (hEq ▸ hb)
        simpa using hne
    rw [hPath, cStr_eq_self hNul]
    refine resolve_append cwd hRoot fun hMem => hDots ?_
    have hCut : cStr rest <+: rest := List.takeWhile_prefix _
    exact ((infix_of_mem_segments hMem).trans hCut.isInfix).trans (List.suffix_append _ rest).isInfix

/-- A spelling of the slash has no question mark, so it is found before one. -/
theorem prefix_targetPath {d target : Bytes} (hd : d ∈ slashSpellings) :
    d <+: targetPath target ↔ d <+: target := by
  have hAll : ∀ b ∈ d, (b != 0x3F) = true := by
    simp only [slashSpellings, List.mem_cons, List.not_mem_nil, or_false] at hd
    obtain rfl | rfl | rfl := hd <;> exact List.all_eq_true.mp rfl
  constructor
  · intro h
    have hPath : targetPath target <+: target := List.takeWhile_prefix _
    exact h.trans hPath
  · rintro ⟨rest, rfl⟩
    rw [targetPath, List.takeWhile_append_of_pos hAll]
    exact List.prefix_append d _

/-- **Accepted paths and the document root.** The file of an accepted target lies inside,
whatever the root, exactly if the target begins with a slash. -/
theorem accepted_inside_iff {r r' : HttpRequest} {s : Bytes}
    (h : r.parseRequest s = .ok (true, r')) : Confined r'.path ↔ SlashTarget s := by
  obtain ⟨line, target, version, hLine, hParts, -, hPath⟩ := accepted_path h
  have hSlash : [0x2F] <+: r'.path ↔ ∃ d ∈ slashSpellings, d <+: target := by
    rw [hPath, slash_defaultPath, slash_urlDecode]
    exact exists_congr fun d => and_congr_right fun hd => prefix_targetPath hd
  constructor
  · intro hConfined
    exact ⟨line, target, version, hLine, hParts, hSlash.mp hConfined.slash⟩
  · rintro ⟨line', target', version', hLine', hParts', hSpelt⟩
    obtain rfl := hLine.unique hLine'
    have hSame := (tokens_eq_some.mpr hParts).symm.trans (tokens_eq_some.mpr hParts')
    cases hSame
    have hDots := accepted_no_dotdot h
    exact
      { slash := hSlash.mpr hSpelt
        noDotDot := fun hMem => hDots (infix_of_mem_segments hMem)
        inside := fun cwd docRoot hRoot => inside_of_slash (hSlash.mpr hSpelt) hDots cwd hRoot }

def slashRequest : Bytes := ascii "GET /a%2Fb?q HTTP/1.1\r\n\r\n"

def siblingRequest : Bytes := ascii "GET foo HTTP/1.1\r\n\r\n"

def srvWww : Bytes := ascii "/srv/www"

/-- A target with a slash, spelt twice. -/
theorem accepted_inside_slash : ∃ r', ({} : HttpRequest).parseRequest slashRequest = .ok (true, r') ∧
    (Confined r'.path ↔ SlashTarget slashRequest) ∧ r'.path = ascii "/a/b" := by
  have h : ∃ r', ({} : HttpRequest).parseRequest slashRequest = .ok (true, r') ∧
      r'.path = ascii "/a/b" := ⟨_, rfl, rfl⟩
  obtain ⟨r', hAccepted, hPath⟩ := h
  exact ⟨r', hAccepted, accepted_inside_iff hAccepted, hPath⟩

/-- A target without a slash names a sibling of the document root: `/srv/wwwfoo`. -/
theorem accepted_sibling : ∃ r', ({} : HttpRequest).parseRequest siblingRequest = .ok (true, r') ∧
    ¬ [0x2F] <+: r'.path ∧ ¬ Inside [] srvWww (srvWww ++ r'.path) ∧ ¬ Confined r'.path := by
  refine ⟨_, rfl, by decide, by decide, fun h => ?_⟩
  exact absurd h.slash (by decide)

end HttpRequest

end ReactorNet
