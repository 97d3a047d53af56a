import Prebuilt.Bytes

/-!
# Usage and version

The texts of `--help` and `--version`.
-/

namespace Prebuilt.Cli

def version : Bytes := "0.3.0"

def versionText : Bytes := "rvblob " ++ version ++ "\n"

def usageLines : List Bytes :=
  ["",
   "Usage: rvblob [command] [options]",
   "",
   "Commands:",
   "  build     Clean, assemble, archive, remove the object (default)",
   "  clean     Remove stale archives from the output directory",
   "  stage     Copy linker scripts to --out-dir or $OUT_DIR",
   "  inspect   List the members and digest of the archive",
   "",
   "Options:",
   "  --manifest=<file>   Read settings from <file> (default: ./blob.toml)",
   "  --source=<file>     Assembly source (default: rebase-hack.S)",
   "  --out-dir=<dir>     Output directory (default: bin)",
   "  --archive=<name>    Archive file name (default: gd32vf103xx-hal.a)",
   "  --cc=<path>         Cross compiler (default: riscv64-unknown-elf-gcc)",
   "  --ar=<path>         Archiver (default: cross ar, then ar)",
   "  --march=<isa>       Instruction set (default: rv32imac)",
   "  --mabi=<abi>        ABI (default: ilp32)",
   "  -v, -vv, -vvv       More output; -v echoes every command",
   "  -q, --quiet         Errors only",
   "  --log-level=<lvl>   trace, debug, info, warn, error, off",
   "  --log-filter=<spec> Per-module levels, e.g. tools=trace,*=warn",
   "  --log-file=<path>   Also write log messages to <path>",
   "  --log-format=json   Machine-readable log lines",
   "  --help, -h          Show this help",
   "  --version, -V       Show version"]

def usageText : Bytes :=
  let title : Bytes := "rvblob " ++ version ++ " - prebuilt RISC-V archive builder"
  (title :: usageLines).flatMap fun line => line ++ Bytes.ofString "\n"

end Prebuilt.Cli
