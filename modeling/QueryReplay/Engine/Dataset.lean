import QueryReplay.Text.Blank
import QueryReplay.Text.Caseless

/-!
# Sample datasets

The tables that a fresh database can be filled with, as statements.
-/

namespace QueryReplay

inductive Dataset where
  | company | store
deriving DecidableEq, Repr

namespace Dataset

def all : List Dataset := [company, store]

/-- The dataset that is taken when none is named. -/
def standard : Dataset := company

def name : Dataset → String
  | company => "company"
  | store => "store"

/-- The tables in the order in which they are made. -/
def tables : Dataset → List String
  | company => ["departments", "employees", "projects"]
  | store => ["customers", "products", "orders"]

/-- The position among all datasets. -/
def position : Dataset → Nat
  | company => 0
  | store => 1

/-- The dataset of a name, in any letter case and with blanks around it. -/
def ofName? (s : String) : Option Dataset :=
  match Text.lower (Text.trim s) with
  | "company" => some company
  | "default" => some company
  | "store" => some store
  | "ecommerce" => some store
  | _ => none

/-- The complaint about a name that is none. -/
def unknownMessage (s : String) : String :=
  "Unknown dataset '" ++ Text.lower (Text.trim s)
    ++ "'. Available datasets: company, store"

def companyScript : String := "
CREATE TABLE departments (
    id INTEGER PRIMARY KEY,
    name VARCHAR NOT NULL,
    location VARCHAR,
    budget INTEGER
);

INSERT INTO departments VALUES
    (1, 'Engineering', 'San Francisco', 500000),
    (2, 'Sales', 'New York', 300000),
    (3, 'Marketing', 'Chicago', 200000),
    (4, 'Human Resources', 'Austin', 150000),
    (5, 'Finance', 'Boston', 250000),
    (6, 'Research', 'Seattle', 400000),
    (7, 'Legal', 'Denver', 180000);

CREATE TABLE employees (
    id INTEGER PRIMARY KEY,
    name VARCHAR NOT NULL,
    dept_id INTEGER,
    salary INTEGER,
    hire_date DATE,
    manager_id INTEGER
);

INSERT INTO employees VALUES
    (1, 'Alice Johnson', 1, 120000, DATE '2019-03-15', NULL),
    (2, 'Bob Smith', 1, 95000, DATE '2020-07-01', 1),
    (3, 'Carol White', 1, 105000, DATE '2018-11-20', 1),
    (4, 'David Brown', 2, 70000, DATE '2021-02-10', NULL),
    (5, 'Emma Davis', 2, 65000, DATE '2021-06-25', 4),
    (6, 'Frank Miller', 3, 60000, DATE '2019-09-05', NULL),
    (7, 'Grace Wilson', 3, 58000, DATE '2022-01-17', 6),
    (8, 'Henry Taylor', 4, 55000, DATE '2020-04-12', NULL),
    (9, 'Ivy Anderson', 4, 52000, DATE '2023-03-01', 8),
    (10, 'Jack Thomas', 5, 85000, DATE '2017-08-30', NULL),
    (11, 'Karen Jackson', 5, 78000, DATE '2019-12-09', 10),
    (12, 'Liam Harris', 2, 72000, DATE '2022-05-19', 4),
    (13, 'Mia Martin', 1, 98000, DATE '2021-10-04', 1),
    (14, 'Noah Garcia', 6, 110000, DATE '2016-05-23', NULL),
    (15, 'Olivia Moore', NULL, 50000, DATE '2024-01-08', NULL);

CREATE TABLE projects (
    id INTEGER PRIMARY KEY,
    name VARCHAR NOT NULL,
    dept_id INTEGER,
    lead_id INTEGER,
    budget INTEGER
);

INSERT INTO projects VALUES
    (1, 'Platform Rewrite', 1, 1, 250000),
    (2, 'Mobile App', 1, 3, 150000),
    (3, 'Q3 Campaign', 3, 6, 60000),
    (4, 'Enterprise Deals', 2, 4, 40000),
    (5, 'Hiring Pipeline', 4, 8, 20000),
    (6, 'Audit Automation', 5, 10, 35000),
    (7, 'Search Research', 6, 14, 120000),
    (8, 'Office Move', NULL, NULL, 15000);
"

def storeScript : String := "
CREATE TABLE customers (
    id INTEGER PRIMARY KEY,
    name VARCHAR NOT NULL,
    city VARCHAR,
    joined DATE
);

INSERT INTO customers VALUES
    (1, 'Ana Lopez', 'Madrid', DATE '2022-01-10'),
    (2, 'Ben Carter', 'London', DATE '2022-03-22'),
    (3, 'Chen Wei', 'Shanghai', DATE '2022-06-05'),
    (4, 'Dana Kim', 'Seoul', DATE '2023-02-14'),
    (5, 'Eli Novak', 'Prague', DATE '2023-08-30'),
    (6, 'Fatima Zahra', 'Casablanca', DATE '2024-01-03');

CREATE TABLE products (
    id INTEGER PRIMARY KEY,
    name VARCHAR NOT NULL,
    category VARCHAR,
    price DOUBLE,
    stock INTEGER
);

INSERT INTO products VALUES
    (1, 'Laptop', 'Electronics', 1200.0, 15),
    (2, 'Headphones', 'Electronics', 150.0, 80),
    (3, 'Coffee Maker', 'Kitchen', 85.5, 40),
    (4, 'Desk Chair', 'Furniture', 230.0, 25),
    (5, 'Notebook', 'Stationery', 4.25, 500),
    (6, 'Standing Desk', 'Furniture', 540.0, 0);

CREATE TABLE orders (
    id INTEGER PRIMARY KEY,
    customer_id INTEGER,
    product_id INTEGER,
    quantity INTEGER,
    order_date DATE
);

INSERT INTO orders VALUES
    (1, 1, 1, 1, DATE '2024-01-15'),
    (2, 1, 5, 10, DATE '2024-01-15'),
    (3, 2, 2, 2, DATE '2024-02-02'),
    (4, 3, 3, 1, DATE '2024-02-20'),
    (5, 3, 5, 3, DATE '2024-03-01'),
    (6, 4, 4, 2, DATE '2024-03-11'),
    (7, 2, 1, 1, DATE '2024-04-05'),
    (8, 5, 2, 1, DATE '2024-04-18'),
    (9, NULL, 3, 1, DATE '2024-05-02');
"

/-- The statements that make the tables and fill them. -/
def script : Dataset → String
  | company => companyScript
  | store => storeScript

end Dataset

end QueryReplay
