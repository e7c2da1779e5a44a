import AsioStudy.Core.Path
import AsioStudy.HttpServer.Request

/-!
# AsioStudy.HttpServer.DocumentRoot

Which file `process_request` opens.

The path is the text `D:\http_root` with the resource after it, up to the first NUL, which a
resource may contain; and nothing looks at the components of the resource. `inDocumentRoot_iff`
says for which resources the path, after lexical normalisation, is at or below `D:\http_root`.
-/

namespace AsioStudy.HttpServer

open LexicalPath

variable {w : Connection} {s : Service}

/-- `'/'` and `'\\'` -/
def isSeparator (c : UInt8) : Bool := c = 47 ∨ c = 92

/-- The components of a path, with those that are empty. -/
def components (path : Bytes) : List Bytes := path.splitOnP isSeparator

/-- An empty component and `"."` are left out, `".."` goes up. -/
def componentKind (c : Bytes) : Component :=
  if c = [] ∨ c = bytes "." then .skip
  else if c = bytes ".." then .up
  else .name

/-- The drive of an absolute path and its directories after lexical normalisation. -/
def normalise (path : Bytes) : Bytes × List Bytes :=
  match components path with
  | [] => ([], [])
  | drive :: path => (drive, resolve componentKind path)

/-- The path is `D:\http_root` or below it. -/
def InDocumentRoot (path : Bytes) : Prop :=
  (normalise path).1 = bytes "D:" ∧ (normalise path).2.head? = some (bytes "http_root")

instance (path : Bytes) : Decidable (InDocumentRoot path) := inferInstanceAs (Decidable (_ ∧ _))

/-- The path that `process_request` opens (`FileSystem.entry`). -/
def Service.opened_path (s : Service) : Bytes := c_str s.resource_file_path

/-- The components of `http_root` with the resource behind it, as far as its first NUL, lead from
the root of the drive to `http_root`, and from there on never above it. -/
def Confined (resource : Bytes) : Prop :=
  ∃ pre post, components (bytes "http_root" ++ c_str resource) =
      pre ++ bytes "http_root" :: post ∧
    depth componentKind pre = 0 ∧ (walk componentKind post).isSome = true

theorem normalise_opened_path :
    normalise s.opened_path = (bytes "D:", resolve componentKind
      (components (bytes "http_root" ++ c_str s.m_requested_resource))) := by
  have hlit : bytes "D:\\http_root" = bytes "D:" ++ 92 :: bytes "http_root" := by decide
  have hdrive : (bytes "D:").splitOnP isSeparator = [bytes "D:"] := by decide
  have hcomponents : components s.opened_path =
      bytes "D:" :: components (bytes "http_root" ++ c_str s.m_requested_resource) := by
    rw [components, Service.opened_path, Service.resource_file_path, c_str_append (by decide), hlit,
      List.append_assoc, List.cons_append, List.splitOnP_append_cons _ _ (by decide), hdrive]
    rfl
  rw [normalise, hcomponents]

/-- **The path is in the document root exactly when the resource is confined to it.** -/
theorem inDocumentRoot_iff :
    InDocumentRoot s.opened_path ↔ Confined s.m_requested_resource := by
  have hroot : componentKind (bytes "http_root") = .name := by decide
  rw [InDocumentRoot, normalise_opened_path, head?_resolve hroot]
  simp only [true_and, Confined, Below, Option.isSome_iff_exists]
  constructor
  · intro h
    obtain ⟨k, pre, post, hpath, hdepth, hwalk⟩ := h
    exact ⟨pre, post, hpath, hdepth, k, hwalk⟩
  · intro h
    obtain ⟨pre, post, hpath, hdepth, k, hwalk⟩ := h
    exact ⟨k, pre, post, hpath, hdepth, hwalk⟩

/-- A resource that begins with a separator and, as far as its first NUL, never goes above its
start is confined. -/
theorem confined_of_walk {c : UInt8} {rest : Bytes} (hc : isSeparator c = true)
    (hwalk : (walk componentKind (components (c_str rest))).isSome = true) :
    Confined (c :: rest) := by
  refine ⟨[], components (c_str rest), ?_, rfl, hwalk⟩
  have hroot : (bytes "http_root").splitOnP isSeparator = [bytes "http_root"] := by decide
  have hne : 0 ∉ [c] := by
    intro hzero
    obtain rfl := List.mem_singleton.mp hzero
    exact absurd hc (by decide)
  have hcut : c_str (c :: rest) = c :: c_str rest := c_str_append hne rest
  rw [hcut, components, List.splitOnP_append_cons _ _ hc, hroot]
  rfl

/-- **Which requests stay in the document root**: those whose resource is confined. -/
theorem processed_inDocumentRoot_iff (h : w.start_handling = .process_request s) :
    (∀ c ∈ s.m_requested_resource, isspace c = false) ∧
      (InDocumentRoot s.opened_path ↔ Confined s.m_requested_resource) :=
  ⟨(Connection.process_request_clean h).1, inDocumentRoot_iff⟩

-- the NUL hides the way up
example : Confined (bytes "/x\x00/../../y") := confined_of_walk (c := 47) (by decide) (by decide)

/-- A request for `uri` with one header field. -/
def uriConnection (uri : Bytes) : Connection where
  platform := .llp64
  fs := fun _ => .absent
  incoming :=
    ⟨[request_line uri ++ CRLF ++ (field_block [(bytes "a", bytes "b")] ++ CRLF)], .silent⟩
  shutdown := true

theorem start_handling_uri {uri : Bytes} (hne : uri ≠ []) (huri : ∀ c ∈ uri, isspace c = false)
    (hlen : (uriConnection uri).incoming.chunks.flatten.length ≤ max_request) :
    ∃ s, (uriConnection uri).start_handling = .process_request s ∧
      s.m_requested_resource = uri := by
  have hfields : RequestFields [(bytes "a", bytes "b")] := by
    intro field hf
    obtain rfl := List.mem_singleton.mp hf
    decide
  exact ⟨_, Connection.start_handling_text hne huri hfields (by simp) (List.append_nil _) hlen, rfl⟩

theorem processed_inDocumentRoot_iff_inside :
    ∃ s, (uriConnection (bytes "/a\\../b")).start_handling = .process_request s ∧
      InDocumentRoot s.opened_path := by
  obtain ⟨s, hs, hresource⟩ := start_handling_uri (by decide : bytes "/a\\../b" ≠ [])
    (no_space_of_all (by decide)) (by decide)
  have hconfined : Confined s.m_requested_resource := by
    rw [hresource]
    exact confined_of_walk (c := 47) (by decide) (by decide)
  exact ⟨s, hs, (processed_inDocumentRoot_iff hs).2.mpr hconfined⟩

theorem not_inDocumentRoot_dotdot :
    ¬ ∀ (w : Connection) (s : Service), w.start_handling = .process_request s →
      InDocumentRoot s.opened_path := by
  intro hall
  obtain ⟨s, hs, hresource⟩ := start_handling_uri (by decide : bytes "/../secret" ≠ [])
    (no_space_of_all (by decide)) (by decide)
  have hin := hall _ s hs
  rw [Service.opened_path, Service.resource_file_path, hresource] at hin
  exact absurd hin (by decide)

end AsioStudy.HttpServer
