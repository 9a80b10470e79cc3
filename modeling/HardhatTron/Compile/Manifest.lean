import HardhatTron.Compile.Downloader
/-!
# The manifest of a mirror

`list.json` of a mirror names its builds. `resolveBuild` looks a version up in
it and checks the digest of the entry it finds.
-/
namespace HardhatTron

/-- An entry of `builds`. A version that is not a string is no version, and of a
digest that is not a string only the text is printed. -/
structure ManifestEntry where
  path : String
  version : Option String
  longVersion : String
  sha256 : Except String (List Char)

structure Manifest where
  builds : List ManifestEntry

/-- `/^0x[0-9a-f]{64}$/i` -/
def isSha256 : List Char → Bool
  | '0' :: x :: ds =>
    x.toLower == 'x' && ds.length == 64 &&
      ds.all fun c => ('0' ≤ c ∧ c ≤ '9') ∨ ('a' ≤ c ∧ c ≤ 'f') ∨ ('A' ≤ c ∧ c ≤ 'F')
  | _ => false

def findBuild (manifest : Manifest) (version : String) : Option ManifestEntry :=
  manifest.builds.find? fun b => b.version == some version

def notInManifest (version mirror : String) (manifest : Manifest) : String :=
  "tron-solc version " ++ version ++ " not found in manifest (mirror=" ++ mirror ++ "). Available: " ++
    String.intercalate ", " (manifest.builds.map fun b => b.version.getD "")

/-- The check of the digest at the end of `resolveBuild`. -/
def checkedBuild (version : String) (entry : ManifestEntry) : Except String Build :=
  match entry.sha256 with
  | .error text => .error ("manifest entry for " ++ version ++ " has invalid sha256: " ++ text)
  | .ok sha256 =>
    if isSha256 sha256 then .ok ⟨entry.path, version, entry.longVersion, sha256⟩
    else .error ("manifest entry for " ++ version ++ " has invalid sha256: " ++ String.ofList sha256)

/-- `resolveBuild` on the last manifest it loads. -/
def resolvedFrom (version mirror : String) (manifest : Manifest) : Except String Build :=
  match findBuild manifest version with
  | none => .error (notInManifest version mirror manifest)
  | some entry => checkedBuild version entry

theorem checkedBuild_version {version : String} {entry : ManifestEntry} {build : Build}
    (h : checkedBuild version entry = .ok build) : build.version = version := by
  unfold checkedBuild at h
  split at h
  · cases h
  · split at h
    · cases h
      rfl
    · cases h

theorem resolvedFrom_ok {version mirror : String} {manifest : Manifest} {build : Build} :
    resolvedFrom version mirror manifest = .ok build ↔
      ∃ entry, findBuild manifest version = some entry ∧ checkedBuild version entry = .ok build := by
  unfold resolvedFrom
  cases findBuild manifest version <;> simp

end HardhatTron
