import Dossier.FileSystem.Resolve
import Dossier.Profile.Dependencies
import Dossier.Profile.Workspaces

/-!
# Detecting a profile

The profile of the project in a directory, from its manifests and marker files. What reads the one
manifest in YAML is given.
-/

namespace Dossier.Profile

/-- The profile of the project in a directory. -/
def detect (yaml : Data.Reader) (fs : FileSystem) (dir : Path) : Except Failure Profile := do
  let root ← fs.resolve dir
  let identity ← identify fs root
  let stack ← stackOf fs root
  let monorepo ← monorepoOf yaml fs root
  let runtime ← runtimeOf fs root
  return {
    name := identity.properName?.getD (if root.name = "" then "project" else root.name)
    description := identity.description
    runtime
    frameworks := stack.frameworks
    tooling := stack.tooling
    monorepo }

end Dossier.Profile
