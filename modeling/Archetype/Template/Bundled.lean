import Archetype.Disk.Change
import Archetype.Placeholder
import Archetype.Template.Load
import Archetype.Template.Name

namespace Archetype.Template.Bundled

open Archetype.Placeholder (spell)

def name : String := "lib"

def ofLines (lines : List String) : String :=
  String.join (lines.map (· ++ "\n"))

theorem toList_ofLines (lines : List String) :
    (ofLines lines).toList = lines.flatMap fun line => line.toList ++ ['\n'] := by
  induction lines with
  | nil => rfl
  | cons line lines ih =>
      rw [List.flatMap_cons, ← ih, ofLines, List.map_cons, String.join_cons, String.toList_append,
        String.toList_append]
      rfl

def descriptor : String := ofLines [
  "description: A minimal Python library.",
  "transform:",
  "  - [src, \"src/" ++ spell "main/file" ++ "\", \x7b\"package.py.tmpl\": \"__init__.py\"\x7d]",
  "  - [tests, tests, \x7b\"test_package.py.tmpl\": \"test_" ++ spell "main/file" ++ ".py\"\x7d]",
  "  - \x7bsrc: ci, target: .github, opts: [raw]\x7d"]

def readme : String := ofLines [
  "# " ++ spell "name",
  "",
  spell "description",
  "",
  "## Development",
  "",
  "- Create a virtual environment and install dependencies with `pip install -e .[dev]`.",
  "- Run the test-suite with `pytest`.",
  "",
  "## License",
  "",
  "Copyright © " ++ spell "now/year" ++ " " ++ spell "developer"]

def metadata : String := ofLines [
  "[build-system]",
  "requires = [\"setuptools>=65.0\"]",
  "build-backend = \"setuptools.build_meta\"",
  "",
  "[project]",
  "name = \"" ++ spell "main" ++ "\"",
  "version = \"" ++ spell "version" ++ "\"",
  "description = \"" ++ spell "description" ++ "\"",
  "readme = \"README.md\"",
  "requires-python = \">=3.10\"",
  "dependencies = []",
  "",
  "[project.optional-dependencies]",
  "dev = [\"pytest\"]",
  "",
  "[project.urls]",
  "Source = \"https://" ++ spell "scm/domain" ++ "/" ++ spell "scm/user" ++ "/" ++
    spell "scm/repo" ++ "\"",
  "",
  "[tool.setuptools]",
  "package-dir = \x7b\"\" = \"src\"\x7d",
  "packages = [\"" ++ spell "main/file" ++ "\"]"]

def package : String := ofLines [
  "\"\"\"Top level package for " ++ spell "name" ++ ".\"\"\"",
  "",
  "__all__ = [\"__version__\"]",
  "__version__ = \"" ++ spell "version" ++ "\""]

def test : String := ofLines [
  "from importlib import import_module",
  "",
  "",
  "def test_package_importable():",
  "    module = import_module(\"" ++ spell "main/file" ++ "\")",
  "    assert hasattr(module, \"__version__\")"]

def workflow : String := ofLines [
  "name: tests",
  "",
  "on:",
  "  push:",
  "  pull_request:",
  "",
  "jobs:",
  "  pytest:",
  "    runs-on: ubuntu-latest",
  "    strategy:",
  "      matrix:",
  "        python-version: [\"3.11\", \"3.12\"]",
  "    steps:",
  "      - uses: actions/checkout@v4",
  "      - uses: actions/setup-python@v5",
  "        with:",
  "          python-version: $" ++ spell " matrix.python-version ",
  "      - run: pip install -e .[dev]",
  "      - run: pytest"]

def files : List (Place × String) := [
  ([descriptorFile], descriptor),
  (["root", "README.md"], readme),
  (["root", "pyproject.toml"], metadata),
  (["src", "package.py.tmpl"], package),
  (["tests", "test_package.py.tmpl"], test),
  (["ci", "workflows", "tests.yml"], workflow)]

def directory : Place :=
  Path.segmentsOf (Name.fileForm (TemplateName.qualify defaultNamespace name))

def install (root : Place) (disk : Disk) : Disk :=
  files.foldl (fun disk (file, text) =>
    (disk.putDirectories (root ++ directory ++ file.dropLast)).put (root ++ directory ++ file)
      (.file text.toUTF8 false)) disk

end Archetype.Template.Bundled
