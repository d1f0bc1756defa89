import Dossier.Profile.Manifest
import Dossier.Text.Case

/-!
# Frameworks and tooling

Which well-known frameworks and tools a project depends on, by the names of its dependencies.
-/

namespace Dossier.Profile

open Data (Datum)

/-! ## Well-known dependencies -/

def scriptFrameworks : List (String × String) :=
  [("next", "Next.js"), ("react", "React"), ("vue", "Vue"), ("svelte", "Svelte"),
    ("@angular/core", "Angular"), ("express", "Express"), ("fastify", "Fastify"), ("hono", "Hono"),
    ("@nestjs/core", "NestJS"), ("koa", "Koa"), ("ink", "Ink")]

def scriptTooling : List (String × String) :=
  [("typescript", "TypeScript"), ("vite", "Vite"), ("vitest", "Vitest"), ("jest", "Jest"),
    ("eslint", "ESLint"), ("prettier", "Prettier"), ("@biomejs/biome", "Biome"),
    ("tailwindcss", "Tailwind CSS")]

def pythonFrameworks : List (String × String) :=
  [("fastapi", "FastAPI"), ("django", "Django"), ("flask", "Flask"), ("aiohttp", "aiohttp"),
    ("starlette", "Starlette")]

def pythonTooling : List (String × String) :=
  [("pytest", "pytest"), ("ruff", "Ruff"), ("mypy", "mypy"), ("black", "Black"), ("tox", "tox")]

def rustFrameworks : List (String × String) :=
  [("axum", "Axum"), ("actix-web", "Actix Web"), ("rocket", "Rocket"), ("tokio", "Tokio"),
    ("warp", "Warp")]

def goFrameworks : List (String × String) :=
  [("github.com/gin-gonic/gin", "Gin"), ("github.com/gofiber/fiber", "Fiber"),
    ("github.com/labstack/echo", "Echo"), ("github.com/go-chi/chi", "chi"),
    ("github.com/gorilla/mux", "gorilla/mux")]

/-- The labels of those that the project has, in the order of the list. -/
def labels (known : List (String × String)) (has : String → Bool) : List String :=
  (known.filter fun (dependency, _) => has dependency).map (·.2)

/-! ## Names of dependencies -/

/-- Characters that end the name in a requirement. -/
def endsName (c : Char) : Bool :=
  c == '<' || c == '>' || c == '=' || c == '!' || c == '~' || c == ' '

/-- The name in a requirement, in lower case: what stands before a marker, an extra or a version. -/
def requirementName (requirement : String) : String :=
  let name := Text.beforeFirst '[' (Text.beforeFirst ';' requirement)
  Text.lower (Text.strip (String.ofList (name.toList.takeWhile fun c => !endsName c)))

/-- The names of the dependencies in a `package.json`. -/
def scriptDependencies (package : Table) : List String :=
  ["dependencies", "devDependencies", "peerDependencies"].flatMap fun key =>
    textKeys ((section? package key).getD [])

/-- The names of the dependencies in a `pyproject.toml`. A tool with a section of its own counts. -/
def pythonDependencies (pyproject : Table) : Except Failure (List String) := do
  let project := (section? pyproject "project").getD []
  let required ← Datum.elementsOrNone (Datum.lookup "dependencies" project)
  let optional := ((section? project "optional-dependencies").getD []).flatMap fun (_, group) =>
    match group with
    | .list items => items
    | _ => []
  let tool := (section? pyproject "tool").getD []
  let poetry := ((section? tool "poetry").bind (section? · "dependencies")).getD []
  return (texts (required ++ optional)).map requirementName ++
    (textKeys poetry).map Text.lower ++
    (pythonTooling.map (·.1)).filter (textKeys tool).contains

/-! ## Detection -/

/-- Frameworks and tools. -/
structure Stack where
  frameworks : List String := []
  tooling : List String := []
deriving DecidableEq, Repr, Inhabited

/-- Puts one stack after another. -/
def Stack.append (a b : Stack) : Stack :=
  ⟨a.frameworks ++ b.frameworks, a.tooling ++ b.tooling⟩

/-- The frameworks and tools of the project in a directory. -/
def stackOf (fs : FileSystem) (dir : Path) : Except Failure Stack := do
  let script := scriptDependencies (← readJson fs (dir.child "package.json"))
  let python ← pythonDependencies (← readToml fs (dir.child "pyproject.toml"))
  let cargo ← readToml fs (dir.child "Cargo.toml")
  let rust := textKeys ((section? cargo "dependencies").getD [])
  let go ← readPlain fs (dir.child "go.mod")
  let docker ← ["Dockerfile", "docker-compose.yml"].anyM fun name => fs.leadsToFile (dir.child name)
  let actions ← fs.leadsToDirectory ((dir.child ".github").child "workflows")
  return {
    frameworks := labels scriptFrameworks script.contains ++
      labels pythonFrameworks python.contains ++ labels rustFrameworks rust.contains ++
      labels goFrameworks (Text.contains go)
    tooling := labels scriptTooling script.contains ++ labels pythonTooling python.contains ++
      (if docker then ["Docker"] else []) ++ (if actions then ["GitHub Actions"] else []) }

end Dossier.Profile
